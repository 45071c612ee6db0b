import FfiRpc.Object.Packing
import FfiRpc.Wire.RoundTrip

/-!
# What the server's function gets

The request of a closure, on the wire and at the server: `arguments_delivered`. Each struct
of the request comes back with its fields (`Alike.entry`), so that `proto_equals` accepts
the parameters, and each argument is marshalled from what came of the caller's.
-/
namespace FfiRpc

open State

/-! ## Content, elsewhere and later

Between the packing of the arguments and the call the two stores go on. What came of an
argument is related to it all the same: on the sender's side to what it was before the
call, on the receiver's to what is there when the request is handled. -/

section
variable {R : List UInt8 → List UInt8 → Prop} {st st0 st' st2 : State} {e e' : RpcTypeT}

/-- The sender's objects before: nothing is held but what was there. -/
theorem Alike.sender (h : Alike R st st' e e')
    (hheap : ∀ a o, st0.heap.lookup a = some o → st.heap.lookup a = some o)
    (hclosed : ∀ S k e p, st0.entry S k = some e → e.target = some p → ∃ o, st0.heap.lookup p = some o)
    (htgt : ∀ p, e.target = some p → ∃ o, st0.heap.lookup p = some o) : Alike R st0 st' e e' := by
  induction h with
  | number h => exact .number h
  | real h => exact .real h
  | string => exact .string
  | @sizedbuf p p' b hb hb' =>
    obtain ⟨o, ho⟩ := htgt p rfl
    have := hheap p o ho
    rw [hb] at this
    cases this
    exact .sizedbuf ho hb'
  | @function p p' f f' hf hf' hret hproto hptr =>
    obtain ⟨o, ho⟩ := htgt p rfl
    have := hheap p o ho
    rw [hf] at this
    cases this
    exact .function ho hf' hret hproto hptr
  | @struct S T s t hs ht hid hkeys _ hshared ih =>
    obtain ⟨o, ho⟩ := htgt S rfl
    have hsame := hheap S o ho
    rw [struct?_eq_some.1 hs] at hsame
    cases hsame
    have hs0 : st0.struct? S = some s := struct?_eq_some.2 ho
    have hheld : ∀ k, st0.held S k = st.held S k :=
      fun k => held_congr (ho.trans (struct?_eq_some.1 hs).symm) k
    refine .struct hs0 ht hid hkeys (fun k e e' he he' => ih k e e' he he' fun p hp => ?_)
      fun k k' p p' q q' hp hp' => ?_
    · exact hclosed S k e p (by rw [entry_of_struct hs0, he]) hp
    · rw [hheld] at hp hp'
      exact hshared k k' p p' q q' hp hp'

/-- The receiver's objects later, as long as those that hang on what came are kept. -/
theorem Alike.receiver (h : Alike R st st' e e')
    (hkeep : ∀ q, e'.target = some q → ∀ a, st'.Hangs q a → st2.heap.lookup a = st'.heap.lookup a) :
    Alike R st st2 e e' := by
  induction h with
  | number h => exact .number h
  | real h => exact .real h
  | string => exact .string
  | sizedbuf hb hb' => exact .sizedbuf hb ((hkeep _ rfl _ .refl).trans hb')
  | function hf hf' hret hproto hptr =>
    exact .function hf ((hkeep _ rfl _ .refl).trans hf') hret hproto hptr
  | @struct S T s t hs ht hid hkeys _ hshared ih =>
    have hT := hkeep T rfl T .refl
    have hheld : ∀ k, st2.held T k = st'.held T k := fun k => held_congr hT k
    refine .struct hs ((struct?_congr hT).trans ht) hid hkeys (fun k e e' he he' => ?_)
      fun k k' p p' q q' hp hp' hq hq' => ?_
    · refine ih k e e' he he' fun q hq a ha => hkeep T rfl a (.head ⟨k, ?_⟩ ha)
      rw [State.held, entry_of_struct ht, he', Option.bind_some, hq]
    · rw [hheld] at hq hq'
      exact hshared k k' p p' q q' hp hp' hq hq'

end

/-! ## The request on the wire

That the round trip applies to a request: a document can carry it, its nesting is bounded,
and it is written. The request consists of three structs of the call's own, with ASCII
keys and random IDs, and of the arguments, for which this is assumed (`Carried`). -/

/-- Arguments that a document can carry. -/
structure Carried (utf8 : CStr → Bool) (st : State) (proto : List UInt32) (args : Nat → Passed) :
    Prop where
  known : ∀ (i : Nat) c, proto[i]? = some c → RpcTypes.ofCode c ≠ some .unknown
  text : ∀ i c, proto[i]? = some c → RpcTypes.ofCode c = some .string → utf8 (args i).text = true
  real : ∀ i c, proto[i]? = some c → RpcTypes.ofCode c = some .real →
    doubleFinite (toLE 8 (args i).value.toNat) = true
  struct : ∀ i c, proto[i]? = some c → RpcTypes.ofCode c = some .struct →
    Nesting.Acyclic st.Edge (args i).value.toNat ∧ Expressible utf8 st (args i).value.toNat

/-- The keys of the arguments are digits. -/
theorem decimal_ascii (i : Nat) : ∀ b ∈ decimal i, b < 128 := by
  intro b hb
  obtain ⟨c, hc, rfl⟩ := List.mem_map.1 hb
  have hdigit := Nat.isDigit_of_mem_toDigits (by decide) (by decide) hc
  simp only [Char.isDigit, Bool.and_eq_true, decide_eq_true_eq, UInt32.le_iff_toNat_le] at hdigit
  have h57 : c.toNat ≤ 57 := hdigit.2
  rw [UInt8.lt_iff_toNat_lt, UInt8.toNat_ofNat', Nat.mod_eq_of_lt (by omega)]
  exact Nat.lt_of_le_of_lt h57 (by decide)

/-- An identifier of letters and digits is a text. -/
theorem RpcStruct.RandomId.text {utf8 : CStr → Bool} {s : RpcStruct} (h : s.RandomId)
    (hascii : AsciiValid utf8) :
    ∃ id, s.ID = id ++ [0] ∧ id.length = 64 ∧ (0 : UInt8) ∉ id ∧ utf8 id = true := by
  obtain ⟨id, hid, hlen, hmem⟩ := h
  exact ⟨id, hid, hlen, zero_notMem_id hmem, hascii id (ascii_id hmem)⟩

section
variable {E : Env} {utf8 : CStr → Bool} {udata : RpcClosureUdata} {proto : List UInt32}
  {args : Nat → Passed} {st0 st : State} {infos : Table Addr Bool}
  {request callRequest fnArgs : Addr}

/-- A struct among the arguments. -/
def StructArg (proto : List UInt32) (args : Nat → Passed) (p : Addr) : Prop :=
  ∃ i c, proto[i]? = some c ∧ RpcTypes.ofCode c = some .struct ∧ (args i).value.toNat = p

theorem StructArg.object {p : Addr} (h : StructArg proto args p) : ObjectArg proto args p := by
  obtain ⟨i, c, hi, hcode, rfl⟩ := h
  exact ⟨i, c, .struct, hi, hcode, rfl⟩

/-- The arguments' struct leads to structs among the arguments only. -/
theorem Requested.edge_args (h : Requested udata proto args st0 st infos request callRequest fnArgs)
    {p : Addr} (hp : st.Edge fnArgs p) : StructArg proto args p := by
  obtain ⟨k, hk⟩ := hp
  obtain ⟨i, c, t, hi, hcode, -, hv⟩ := h.entry k _ hk
  have ht := hv.type
  rw [type_returnElement] at ht
  cases ht
  cases hv
  exact ⟨i, c, hi, hcode, rfl⟩

/-- And those are nested as they were before. -/
theorem Requested.edge_old (h : Requested udata proto args st0 st infos request callRequest fnArgs)
    {S p : Addr} {o : Obj} (hS : st0.heap.lookup S = some o) (hp : st.Edge S p) : st0.Edge S p := by
  obtain ⟨k, hk⟩ := hp
  rw [entry_congr ((h.live hS).trans hS.symm)] at hk
  exact ⟨k, hk⟩

/-- The structs nested in the request are its own, and those nested in arguments. -/
theorem Requested.nested (h : Requested udata proto args st0 st infos request callRequest fnArgs)
    (hst0 : Sane st0) (hfits : Fits st0 proto args) {T : Addr} (hT : st.Nested request T) :
    T ∈ [request, callRequest, fnArgs] ∨
      (∃ p, StructArg proto args p ∧ st0.Nested p T) ∧ ∃ o, st0.heap.lookup T = some o := by
  have hheld : ∀ S p, st.Edge S p → ∃ k, st.held S k = some p := by
    intro S p hp
    obtain ⟨k, hk⟩ := hp
    exact ⟨k, by rw [State.held, hk]; rfl⟩
  induction hT with
  | refl => exact .inl List.mem_cons_self
  | @tail T U _ hedge ih =>
    rcases ih with hT | ⟨⟨p, hp, hnest⟩, o, ho⟩
    · obtain ⟨k, hk⟩ := hheld T U hedge
      rcases List.mem_cons.1 hT with rfl | hT
      · obtain ⟨f, hf, ht⟩ := h.outer.held hk
        simp only [List.mem_cons, List.not_mem_nil, or_false] at hf
        rcases hf with rfl | rfl
        · cases ht
          exact .inl (by simp)
        · cases ht
      · rcases List.mem_cons.1 hT with rfl | hT
        · obtain ⟨f, hf, ht⟩ := h.inner.held hk
          simp only [List.mem_cons, List.not_mem_nil, or_false] at hf
          rcases hf with rfl | rfl | rfl
          · cases ht
            exact .inl (by simp)
          · cases ht
          · cases ht
        · rw [List.mem_singleton.1 hT] at hedge
          have harg := h.edge_args hedge
          exact .inr ⟨⟨U, harg, .refl⟩, hfits.live harg.object⟩
    · have hold := h.edge_old ho hedge
      obtain ⟨k, hk⟩ := hold
      refine .inr ⟨⟨p, hp, hnest.tail ⟨k, hk⟩⟩, ?_⟩
      exact hst0.inv.held_live (show st0.held T k = some U by rw [State.held, hk]; rfl)

/-- Whether a struct can be written is a matter of its own fields. -/
theorem Writable.congr {S : Addr} (h : Writable utf8 st0 S)
    (hheap : st.heap.lookup S = st0.heap.lookup S) : Writable utf8 st S := by
  refine ⟨?_, ?_, ?_, ?_⟩
  · rw [struct?_congr hheap]
    exact h.id
  · simp only [entry_congr hheap]
    exact h.key
  · simp only [entry_congr hheap]
    exact h.text
  · simp only [entry_congr hheap]
    exact h.real

/-- A struct of the call's own that has texts for names and no numbers. -/
theorem HasFields.writable {S : Addr} {l : List (CStr × RpcTypeT)} (h : HasFields st S l)
    (hascii : AsciiValid utf8) (hl : ∀ f ∈ l, utf8 f.1 = true ∧ (∀ q t, f.2 = .string q t → utf8 t = true) ∧
      ∀ raw, f.2 ≠ .real raw) : Writable utf8 st S := by
  refine ⟨fun s hs => (h.randomId s hs).text hascii, fun k e he => ?_, fun k q t he => ?_, fun k raw he => ?_⟩
  · obtain ⟨e0, hmem, -⟩ := h.mem he
    exact (hl _ hmem).1
  · obtain ⟨e0, hmem, hv⟩ := h.mem he
    cases e0 with
    | string q0 t0 =>
      cases hv
      exact (hl _ hmem).2.1 q0 t rfl
    | _ => cases hv
  · obtain ⟨e0, hmem, hv⟩ := h.mem he
    cases e0 with
    | real raw0 => exact absurd rfl ((hl _ hmem).2.2 raw0)
    | _ => cases hv

/-- The arguments' struct can be written if the arguments can. -/
theorem Requested.writable_args
    (h : Requested udata proto args st0 st infos request callRequest fnArgs)
    (hascii : AsciiValid utf8) (hcarried : Carried utf8 st0 proto args) : Writable utf8 st fnArgs := by
  obtain ⟨x, hx, hrandom⟩ := h.struct
  refine ⟨fun s hs => ?_, fun k e he => ?_, fun k q t he => ?_, fun k raw he => ?_⟩
  · rw [hx] at hs
    cases hs
    exact hrandom.text hascii
  · obtain ⟨i, -, -, -, -, rfl, -⟩ := h.entry k e he
    exact hascii _ (decimal_ascii i)
  · obtain ⟨i, c, t', hi, hcode, -, hv⟩ := h.entry k _ he
    have hty := hv.type
    rw [type_returnElement] at hty
    cases hty
    cases hv
    exact hcarried.text i c hi hcode
  · obtain ⟨i, c, t', hi, hcode, -, hv⟩ := h.entry k _ he
    have hty := hv.type
    rw [type_returnElement] at hty
    cases hty
    cases hv
    exact ⟨_, serializeReal_finite (length_toLE _ _) (hcarried.real i c hi hcode)⟩

/-- A document can carry the request. -/
theorem Requested.expressible (h : Requested udata proto args st0 st infos request callRequest fnArgs)
    (hst0 : Sane st0) (hfits : Fits st0 proto args) (hascii : AsciiValid utf8)
    (hcarried : Carried utf8 st0 proto args) (hfn : utf8 udata.fnName = true)
    (hobject : utf8 (rpcStructIdGet st0 udata.cobj) = true) : Expressible utf8 st request := by
  have hname : ∀ name : CStr, (∀ b ∈ name, b < 128) → utf8 name = true := fun name => hascii name
  have hstruct : ∀ p : Addr, (∀ q t, RpcTypeT.struct p = .string q t → utf8 t = true) ∧
      ∀ raw, RpcTypeT.struct p ≠ .real raw := by
    intro p
    constructor
    · intro q t hc
      cases hc
    · intro raw hc
      cases hc
  have hstring : ∀ text, utf8 text = true →
      (∀ q t, RpcTypeT.string 1 text = .string q t → utf8 t = true) ∧
      ∀ raw, RpcTypeT.string 1 text ≠ .real raw := by
    intro text htext
    constructor
    · intro q t hc
      cases hc
      exact htext
    · intro raw hc
      cases hc
  refine ⟨hascii, fun T hT => ?_⟩
  rcases h.nested hst0 hfits hT with hown | ⟨⟨p, ⟨i, c, hi, hcode, rfl⟩, hnest⟩, o, ho⟩
  · rcases List.mem_cons.1 hown with rfl | hown
    · refine h.outer.writable hascii fun f hf => ?_
      simp only [List.mem_cons, List.not_mem_nil, or_false] at hf
      rcases hf with rfl | rfl
      · exact ⟨hname (ascii "params") (by decide +kernel), hstruct callRequest⟩
      · exact ⟨hname (ascii "method") (by decide +kernel),
          hstring _ (hname (ascii "call") (by decide +kernel))⟩
    · rcases List.mem_cons.1 hown with rfl | hown
      · refine h.inner.writable hascii fun f hf => ?_
        simp only [List.mem_cons, List.not_mem_nil, or_false] at hf
        rcases hf with rfl | rfl | rfl
        · exact ⟨hname (ascii "params") (by decide +kernel), hstruct fnArgs⟩
        · exact ⟨hname (ascii "function") (by decide +kernel), hstring _ hfn⟩
        · exact ⟨hname (ascii "object") (by decide +kernel), hstring _ hobject⟩
      · rw [List.mem_singleton.1 hown]
        exact h.writable_args hascii hcarried
  · exact ((hcarried.struct i c hi hcode).2.nested T hnest).congr ((h.live ho).trans ho.symm)

/-- The request nests to a bounded depth. -/
theorem Requested.depth (h : Requested udata proto args st0 st infos request callRequest fnArgs)
    (hst0 : Sane st0) (hcarried : Carried utf8 st0 proto args) (hfits : Fits st0 proto args) :
    ∃ n, Nesting.DepthLE st.Edge n request := by
  -- below the arguments nothing has changed
  have hold : ∀ n p, (∃ o, st0.heap.lookup p = some o) → Nesting.DepthLE st0.Edge n p →
      Nesting.DepthLE st.Edge n p := by
    intro n p hp hdepth
    induction hdepth with
    | @mk n a _ ih =>
      obtain ⟨o, ho⟩ := hp
      refine .mk fun b hb => ?_
      have hedge := h.edge_old ho hb
      obtain ⟨k, hk⟩ := hedge
      exact ih b ⟨k, hk⟩ (hst0.inv.held_live (show st0.held a k = some b by
        rw [State.held, hk]; rfl))
  have hmono : ∀ (n m : Nat) (p : Addr), (st.Edge fnArgs p → Nesting.DepthLE st.Edge n p) → n ≤ m →
      st.Edge fnArgs p → Nesting.DepthLE st.Edge m p :=
    fun n m p hp hnm hedge => (hp hedge).mono hnm
  obtain ⟨n, hn⟩ := Nesting.exists_bound hmono st.addrs fun p _ => by
    by_cases hedge : st.Edge fnArgs p
    · have harg := h.edge_args hedge
      obtain ⟨i, c, hi, hcode, rfl⟩ := harg
      obtain ⟨n, hn⟩ := (hcarried.struct i c hi hcode).1.depthLE (mem_addrs_of_edge st0)
      exact ⟨n, fun _ => hold n _ (hfits.live (StructArg.object ⟨i, c, hi, hcode, rfl⟩)) hn⟩
    · exact ⟨0, fun hc => absurd hc hedge⟩
  have hargs : Nesting.DepthLE st.Edge (n + 1) fnArgs :=
    .mk fun p hp => hn p (mem_addrs_of_edge st _ _ hp) hp
  have hstep : ∀ S T m l, HasFields st S l → (∀ f ∈ l, ∀ p, f.2.target = some p → p = T) →
      Nesting.DepthLE st.Edge m T → Nesting.DepthLE st.Edge (m + 1) S := by
    intro S T m l hfields hl hT
    refine .mk fun p hp => ?_
    obtain ⟨k, hk⟩ := hp
    obtain ⟨f, hf, ht⟩ := hfields.held (show st.held S k = some p by rw [State.held, hk]; rfl)
    rw [hl f hf p ht]
    exact hT
  have hcall := hstep callRequest fnArgs _ _ h.inner (fun f hf p hp => by
    simp only [List.mem_cons, List.not_mem_nil, or_false] at hf
    rcases hf with rfl | rfl | rfl
    · cases hp
      rfl
    · cases hp
    · cases hp) hargs
  exact ⟨_, hstep request callRequest _ _ h.outer (fun f hf p hp => by
    simp only [List.mem_cons, List.not_mem_nil, or_false] at hf
    rcases hf with rfl | rfl
    · cases hp
      rfl
    · cases hp) hcall⟩

/-- The request is written. -/
theorem Requested.sent (h : Requested udata proto args st0 st infos request callRequest fnArgs)
    (hst0 : Sane st0) (hfits : Fits st0 proto args) (hascii : AsciiValid utf8)
    (hcarried : Carried utf8 st0 proto args) (hfn : utf8 udata.fnName = true)
    (hobject : utf8 (rpcStructIdGet st0 udata.cobj) = true)
    (hfound : ∀ T, st.Nested request T → ∀ st', Keeps ∅ st st' →
      ∃ dups, rpcStructFoundDuplicates E st' T = .ok dups) :
    ∃ st1 j, Serializes E utf8 st request st1 j ∧ RepItem st Set.univ False (.struct request) j := by
  obtain ⟨n, hn⟩ := h.depth hst0 hcarried hfits
  have hsilent : ∀ p ∈ st.silent, ∃ o, st.heap.lookup p = some o := by
    intro p hp
    obtain ⟨r, hr, -⟩ := mem_silent.1 hp
    exact h.sane.live_of_tracked hr
  rcases serialize_spec E utf8 False h.sane.inv h.sane.stored hsilent n _ st request h.sane.inv
    h.sane.stored (.refl ∅ st) h.outer.struct (fun _ => ⟨hn, hfound⟩) with hsent | herr
  · obtain ⟨⟨st1, j⟩, hok, -, -, -, -, -, -, hrep⟩ := hsent
    exact ⟨st1, j, ⟨n, hok⟩, hrep (h.expressible hst0 hfits hascii hcarried hfn hobject)⟩
  · exact herr.1.elim

end

/-! ## The request at the server

Reading the fields of the request that came gives what came of the fields that were sent:
`getStruct` and `getString` cross the wire. -/

section
variable {udata : RpcClosureUdata} {proto : List UInt32} {args : Nat → Passed}
  {st0 st st' : State} {infos : Table Addr Bool} {request callRequest fnArgs new params : Addr}
  {R : List UInt8 → List UInt8 → Prop} {S T : Addr} {k : CStr}

/-- A struct that was sent under a key is found under it. -/
theorem Alike.getStruct (h : Alike R st st' (.struct S) (.struct T)) {p : Addr}
    (hp : rpcStructGetStruct st S k = some p) :
    ∃ q, rpcStructGetStruct st' T k = some q ∧ Alike R st st' (.struct p) (.struct q) := by
  have he : st.entry S k = some (.struct p) := by
    unfold rpcStructGetStruct rpcStructGetInternal at hp
    cases he : st.entry S k with
    | none =>
      rw [he] at hp
      cases hp
    | some e =>
      rw [he] at hp
      cases e with
      | struct p' =>
        cases hp
        rfl
      | _ => cases hp
  obtain ⟨e', he', hsame⟩ := h.entry he fun hc => by cases hc
  obtain ⟨q, rfl⟩ := hsame.of_struct
  refine ⟨q, ?_, hsame⟩
  rw [rpcStructGetStruct, rpcStructGetInternal, he']
  rfl

/-- So is a text. -/
theorem Alike.getString (h : Alike R st st' (.struct S) (.struct T)) {text : CStr}
    (hp : rpcStructGetString st S k = some text) : rpcStructGetString st' T k = some text := by
  have he : ∃ q, st.entry S k = some (.string q text) := by
    unfold rpcStructGetString rpcStructGetInternal at hp
    cases he : st.entry S k with
    | none =>
      rw [he] at hp
      cases hp
    | some e =>
      rw [he] at hp
      cases e with
      | string q t =>
        cases hp
        exact ⟨q, rfl⟩
      | _ => cases hp
  obtain ⟨q, he⟩ := he
  obtain ⟨e', he', hsame⟩ := h.entry he fun hc => by cases hc
  cases hsame with
  | string =>
    rw [rpcStructGetString, rpcStructGetInternal, he']
    rfl

/-- Content only depends on the value. -/
theorem Alike.of_value {e0 e e' : RpcTypeT} (h : Alike R st st' e e') (hv : e0.SameValue e) :
    Alike R st st' e0 e' := by
  cases e0 <;> cases e <;> cases hv <;> try exact h
  cases h
  exact .string

/-- What came of the call's own structs. -/
theorem Requested.arrived (h : Requested udata proto args st0 st infos request callRequest fnArgs)
    (hsame : CopyItem st st' (.struct request) (.struct new)) :
    ∃ callParams params, CallRequest st' new callParams ∧
      rpcStructGetString st' callParams (ascii "object") = some (rpcStructIdGet st0 udata.cobj) ∧
      rpcStructGetString st' callParams (ascii "function") = some udata.fnName ∧
      rpcStructGetStruct st' callParams (ascii "params") = some params ∧
      CopyItem st st' (.struct fnArgs) (.struct params) := by
  obtain ⟨callParams, hcall, hsame2⟩ := hsame.getStruct (k := ascii "params")
    (h.outer.getStruct rfl)
  obtain ⟨params, hparams, hsame3⟩ := hsame2.getStruct (k := ascii "params")
    (h.inner.getStruct rfl)
  exact ⟨callParams, params, ⟨hsame.getString (h.outer.getString rfl), hcall⟩,
    hsame2.getString (h.inner.getString rfl), hsame2.getString (h.inner.getString rfl), hparams, hsame3⟩

/-- What came of an argument. -/
theorem Requested.argument (h : Requested udata proto args st0 st infos request callRequest fnArgs)
    (hst0 : Sane st0) (hfits : Fits st0 proto args)
    (hsame : CopyItem st st' (.struct fnArgs) (.struct params)) {i : Nat} {c : UInt32}
    {t : RpcTypes} (hi : proto[i]? = some c) (hcode : RpcTypes.ofCode c = some t)
    (hknown : t ≠ .unknown) :
    CopyItem st0 st' (returnElement t (args i)) (rpcStructGetInternal st' params (decimal i)) ∧
      (∃ e', st'.entry params (decimal i) = some e') ∧
      st.held fnArgs (decimal i) = (returnElement t (args i)).target := by
  obtain ⟨e, he, hv⟩ := h.packed i c t hi hcode
  obtain ⟨e', he', hitem⟩ := hsame.entry he (by rw [hv.type, type_returnElement]; exact hknown)
  refine ⟨?_, ⟨e', he'⟩, ?_⟩
  · rw [rpcStructGetInternal, he', Option.getD_some]
    refine (hitem.of_value hv).sender (fun a o ho => h.live ho) (fun S k e p hk hp => ?_) fun p hp => ?_
    · exact hst0.inv.held_live (show st0.held S k = some p by rw [State.held, hk]; exact hp)
    · exact hfits.live ⟨i, c, t, hi, hcode, hp⟩
  · rw [State.held, he, Option.bind_some, hv.target]

/-! ### The parameters

`rpc_cobject_call` goes by their number, and then looks each up under its position. -/

theorem mem_rpcStructKeys : k ∈ rpcStructKeys st S ↔ ∃ e, st.entry S k = some e := by
  unfold rpcStructKeys State.entry
  cases st.struct? S with
  | none => simp
  | some s => exact Table.mem_keys_iff

/-- The parameters are as many as the arguments. -/
theorem Requested.length (h : Requested udata proto args st0 st infos request callRequest fnArgs)
    (hst0 : Sane st0) (hfits : Fits st0 proto args)
    (hknown : ∀ (i : Nat) c, proto[i]? = some c → RpcTypes.ofCode c ≠ some .unknown)
    (hsame : CopyItem st st' (.struct fnArgs) (.struct params)) :
    rpcStructLength st' params = proto.length := by
  have hperm : (rpcStructKeys st' params).Perm ((List.range proto.length).map decimal) := by
    refine (List.perm_ext_iff_of_nodup nodup_rpcStructKeys
      (List.nodup_range.map decimal_injective)).2 fun k => ?_
    rw [mem_rpcStructKeys, List.mem_map]
    constructor
    · intro hk
      obtain ⟨e', he'⟩ := hk
      obtain ⟨e, he⟩ := hsame.entry_of he'
      obtain ⟨i, c, -, hi, -, rfl, -⟩ := h.entry k e he
      exact ⟨i, List.mem_range.2 (List.getElem?_eq_some_iff.1 hi).1, rfl⟩
    · intro hk
      obtain ⟨i, hi, rfl⟩ := hk
      have hget := List.getElem?_eq_getElem (List.mem_range.1 hi)
      obtain ⟨t, hcode, -⟩ := hfits.typed i _ hget
      refine (h.argument hst0 hfits hsame hget hcode fun hc => hknown i _ hget ?_).2.1
      rw [hcode, hc]
  rw [← length_rpcStructKeys, hperm.length_eq, List.length_map, List.length_range]

theorem RpcTypes.code_of_ofCode {c : UInt32} {t : RpcTypes} (h : ofCode c = some t) : t.code = c := by
  rw [ofCode] at h
  rw [← UInt32.toNat_inj]
  generalize c.toNat = n at h ⊢
  have hlt : n < 8 := (List.getElem?_eq_some_iff.1 h).1
  interval_cases n <;> cases h <;> rfl

theorem argument_number (raw : List UInt8) : (RpcTypeT.number raw).argument = loadNumber 8 raw := by
  rw [RpcTypeT.argument, loadNumber, List.take_append, List.take_replicate]
  congr 2
  omega

end

/-! ## The call

The server may have done other things between the arrival of the request and the call, as
long as it left alone what hangs on the request (`Handles`). -/

/-- The libffi types of a prototype. -/
def protoVector (proto : List UInt32) : List FfiType :=
  proto.map fun c => rpctypeToLibffi ((RpcTypes.ofCode c).getD .none)

/-- The server when it handles the request: what hangs on it is as it was received; the
object has the function; what is cached for the function is not stale. -/
structure Handles (received : State) (new : Addr) (s : Server) (cobjName fnName : CStr)
    (proto : List UInt32) : Prop where
  same : ∀ a, received.Hangs new a → s.store.heap.lookup a = received.heap.lookup a
  object : rpcCobjectGet s.toRegistry cobjName ≠ 0
  function : ∃ fn, rpcStructGetFunction s.store (rpcCobjectGet s.toRegistry cobjName) fnName =
    some fn ∧ fn.prototype.getD [] = proto
  cache : ∀ vector, s.protocache.lookup (cacheKey (rpcStructIdGet s.store
    (rpcCobjectGet s.toRegistry cobjName)) fnName) = some vector → vector = protoVector proto

/-- What libffi gets of the arguments `args` that the client, in state `st0`, passed for
`proto`: `params` are the parameters that came. -/
structure Delivered (st0 st : State) (proto : List UInt32) (args : Nat → Passed) (params : Addr)
    (inv : Invocation) : Prop where
  accepted : protoEquals st proto params = true
  types : inv.atypes = protoVector proto
  fixed : inv.nfixedargs = proto.length
  total : inv.ntotalargs = proto.length ∧ inv.avalues.length = proto.length
  value : ∀ i c t, proto[i]? = some c → RpcTypes.ofCode c = some t →
    inv.avalues[i]? = some (rpcStructGetInternal st params (decimal i)).argument ∧
    CopyItem st0 st (returnElement t (args i)) (rpcStructGetInternal st params (decimal i))
  scalar : ∀ i c t, proto[i]? = some c → RpcTypes.ofCode c = some t → t = .number ∨ t = .real →
    inv.avalues[i]? = some (toLE 8 (args i).value.toNat)
  same : ∀ i c t p q i' c' t' p' q', proto[i]? = some c → RpcTypes.ofCode c = some t →
    proto[i']? = some c' → RpcTypes.ofCode c' = some t' →
    (returnElement t (args i)).target = some p → (returnElement t' (args i')).target = some p' →
    (rpcStructGetInternal st params (decimal i)).target = some q →
    (rpcStructGetInternal st params (decimal i')).target = some q' → (p = p' ↔ q = q')

section
variable {udata : RpcClosureUdata} {proto : List UInt32} {args : Nat → Passed} {st0 st : State}
  {infos : Table Addr Bool} {request callRequest fnArgs new params : Addr} {s : Server}
  {received : State} {cobjName : CStr}

/-- The arguments, once the parameters are those that came of them. -/
theorem Requested.delivered
    (h : Requested udata proto args st0 st infos request callRequest fnArgs)
    (hst0 : Sane st0) (hfits : Fits st0 proto args)
    (hknown : ∀ (i : Nat) c, proto[i]? = some c → RpcTypes.ofCode c ≠ some .unknown)
    (hsame : CopyItem st s.store (.struct fnArgs) (.struct params))
    (hserver : Handles received new s cobjName udata.fnName proto) :
    ∃ cache inv, prepareCall s.store s.protocache (rpcCobjectGet s.toRegistry cobjName)
        udata.fnName params = (cache, .ok inv) ∧
      Delivered st0 s.store proto args params inv := by
  have hlen := h.length hst0 hfits hknown hsame
  have hknown' : ∀ {i : Nat} {c t}, proto[i]? = some c → RpcTypes.ofCode c = some t → t ≠ .unknown := by
    intro i c t hi hcode hc
    exact hknown i c hi (by rw [hcode, hc])
  have htype : ∀ i c t, proto[i]? = some c → RpcTypes.ofCode c = some t →
      rpcStructTypeof s.store params (decimal i) = t := by
    intro i c t hi hcode
    have hitem := (h.argument hst0 hfits hsame hi hcode (hknown' hi hcode)).1
    rw [rpcStructTypeof, hitem.type, type_returnElement]
  have hproto : protoEquals s.store proto params = true := by
    refine protoEquals_iff.2 ⟨hlen.ge, fun i c hi => ?_⟩
    obtain ⟨t, hcode, -⟩ := hfits.typed i c hi
    rw [htype i c t hi hcode, RpcTypes.code_of_ofCode hcode]
  have hvector : buildVector s.store params = protoVector proto := by
    refine List.ext_getElem? fun i => ?_
    rw [buildVector, hlen, protoVector, List.getElem?_map, List.getElem?_map]
    by_cases hi : i < proto.length
    · have hget := List.getElem?_eq_getElem hi
      obtain ⟨t, hcode, -⟩ := hfits.typed i _ hget
      rw [hget, List.getElem?_range hi, Option.map_some, Option.map_some, hcode,
        htype i _ t hget hcode, Option.getD_some]
    · rw [List.getElem?_eq_none (Nat.le_of_not_lt hi), List.getElem?_eq_none (by simpa using hi)]
      rfl
  obtain ⟨fn, hfn, hfnproto⟩ := hserver.function
  obtain ⟨cache, hcached, -⟩ := cachedVector_spec s.protocache (cacheKey (rpcStructIdGet s.store
    (rpcCobjectGet s.toRegistry cobjName)) udata.fnName) s.store params
  have hresident : (s.protocache.lookup (cacheKey (rpcStructIdGet s.store
      (rpcCobjectGet s.toRegistry cobjName)) udata.fnName)).getD (buildVector s.store params) =
      protoVector proto := by
    cases hc : s.protocache.lookup (cacheKey (rpcStructIdGet s.store
      (rpcCobjectGet s.toRegistry cobjName)) udata.fnName) with
    | none => exact hvector
    | some vector => exact hserver.cache vector hc
  rw [hresident] at hcached
  have hvalue : ∀ i c, proto[i]? = some c → (invocation s.store fn (protoVector proto)
      params).avalues[i]? = some (rpcStructGetInternal s.store params (decimal i)).argument := by
    intro i c hi
    have hlt := (List.getElem?_eq_some_iff.1 hi).1
    rw [invocation, hlen, List.getElem?_map, List.getElem?_range hlt, Option.map_some]
  refine ⟨cache, invocation s.store fn (protoVector proto) params, ?_, hproto, rfl, ?_, ⟨hlen, ?_⟩,
    fun i c t hi hcode => ⟨hvalue i c hi, ?_⟩, fun i c t hi hcode hscalar => ?_, ?_⟩
  · unfold prepareCall
    rw [if_neg hserver.object, hfn]
    simp only [hfnproto, hproto, if_true, hcached]
  · rw [invocation, hfnproto]
  · rw [invocation, List.length_map, List.length_range, hlen]
  · exact (h.argument hst0 hfits hsame hi hcode (hknown' hi hcode)).1
  · have hitem := (h.argument hst0 hfits hsame hi hcode (hknown' hi hcode)).1
    rw [hvalue i c hi]
    congr 1
    rcases hscalar with rfl | rfl
    · generalize rpcStructGetInternal s.store params (decimal i) = e' at hitem
      cases hitem with
      | number hload =>
        rw [argument_number, hload 8 (by decide), loadNumber, length_toLE]
        simp
    · generalize rpcStructGetInternal s.store params (decimal i) = e' at hitem
      cases hitem with
      | real hbits =>
        cases serializeReal_double (length_toLE 8 _) hbits
        rw [RpcTypeT.argument, List.take_left' (length_toLE 8 _)]
  · intro i c t p q i' c' t' p' q' hi hcode hi' hcode' hp hp' hq hq'
    obtain ⟨-, ⟨e, he⟩, hheld⟩ := h.argument hst0 hfits hsame hi hcode (hknown' hi hcode)
    obtain ⟨-, ⟨e', he'⟩, hheld'⟩ := h.argument hst0 hfits hsame hi' hcode' (hknown' hi' hcode')
    refine hsame.shared (hheld.trans hp) (hheld'.trans hp') ?_ ?_
    · rw [rpcStructGetInternal, he] at hq
      rw [State.held, he]
      exact hq
    · rw [rpcStructGetInternal, he'] at hq'
      rw [State.held, he']
      exact hq'

/-- A client packs its arguments, and the request goes over the wire to a server: whenever
the server handles it, `proto_equals` accepts, and the function gets what came of the
arguments. -/
theorem arguments_delivered {E : Env} {utf8 : CStr → Bool} {fn : RpcFunction}
    (hst0 : Sane st0) (hcobj : ∃ s, st0.struct? udata.cobj = some s)
    (hfits : Fits st0 (fn.prototype.getD []) args) (hascii : AsciiValid utf8)
    (hcarried : Carried utf8 st0 (fn.prototype.getD []) args) (hname : utf8 udata.fnName = true)
    (hobject : utf8 (rpcStructIdGet st0 udata.cobj) = true) :
    ∃ packed request, packRequest E udata fn st0 args = .ok (packed, request) ∧
      ((∀ T, packed.store.Nested request T → ∀ st', Keeps ∅ packed.store st' →
          ∃ dups, rpcStructFoundDuplicates E st' T = .ok dups) →
        ∃ st1 j, Serializes E utf8 packed.store request st1 j ∧
          ∀ (E' : Env) (r : State), Sane r → ∃ received new,
            rpcStructDeserialize E' r (some j) = .ok (received, new) ∧ Keeps ∅ r received ∧
            ∀ s, Handles received new s (rpcStructIdGet st0 udata.cobj) udata.fnName
                (fn.prototype.getD []) →
              ∃ callParams params cache inv, CallRequest s.store new callParams ∧
                prepareCall s.store s.protocache
                  (rpcCobjectGet s.toRegistry (rpcStructIdGet st0 udata.cobj)) udata.fnName params =
                    (cache, .ok inv) ∧
                (∀ ffiCall, callEnd ffiCall s callParams =
                  .returned (ffiCall inv { s with protocache := cache }).2) ∧
                Delivered st0 s.store (fn.prototype.getD []) args params inv) := by
  obtain ⟨packed, request, callRequest, fnArgs, hpack, hreq⟩ := packRequest_spec hst0 E hcobj hfits
  refine ⟨packed, request, hpack, fun hfound => ?_⟩
  obtain ⟨st1, j, hser, hrep⟩ := hreq.sent hst0 hfits hascii hcarried hname hobject hfound
  refine ⟨st1, j, hser, fun E' r hr => ?_⟩
  obtain ⟨received, new, hback, hcopied, hkeeps⟩ := hrep.received E' hr.inv
  refine ⟨received, new, hback, hkeeps, fun s hserver => ?_⟩
  have hlater : CopyItem packed.store s.store (.struct request) (.struct new) :=
    hcopied.receiver fun q hq a ha => by
      cases hq
      exact hserver.same a ha
  obtain ⟨callParams, params, hcall, hobjectName, hfnName, hparams, hargs⟩ := hreq.arrived hlater
  obtain ⟨cache, inv, hprep, hdelivered⟩ :=
    hreq.delivered hst0 hfits hcarried.known hargs hserver
  refine ⟨callParams, params, cache, inv, hcall, hprep, fun ffiCall => ?_, hdelivered⟩
  unfold callEnd
  simp only [hobjectName, hfnName, hparams, hprep]

end

/-! ### A struct passed twice -/

def twiceProto : List UInt32 :=
  [RpcTypes.struct.code, RpcTypes.struct.code, RpcTypes.number.code]

/-- The object 3 has a function "f" of two structs and a number. -/
def twiceOps : List Op :=
  [.structCreate, .structCreate, .structCreate, .functionCreate, .setPrototype 4 twiceProto,
    .set 3 [102] (.function 4), .set 1 (List.replicate 64 97) (.struct 3), .structCreate,
    .set 5 [107] (.number [9])]

/-- 5 twice, and the number 7. -/
def twiceArgs : Nat → Passed
  | 0 | 1 => ⟨5, []⟩
  | _ => ⟨7, []⟩

/-- Two structs and a number. -/
theorem twiceArgs_cases {i : Nat} {c : UInt32} (h : twiceProto[i]? = some c) :
    (RpcTypes.ofCode c = some .struct ∧ twiceArgs i = ⟨5, []⟩) ∨
      RpcTypes.ofCode c = some .number ∧ twiceArgs i = ⟨7, []⟩ := by
  match i with
  | 0 | 1 =>
    cases h
    exact .inl ⟨rfl, rfl⟩
  | 2 =>
    cases h
    exact .inr ⟨rfl, rfl⟩

/-- The search for aliases returns where all structs are small. -/
theorem found_nested {E : Env} {st : State} (hst : Sane st)
    (hsmall : ∀ a ∈ st.heap.keys, ((st.struct? a).map fun s => decide (s.map.keys.length ≤ 16)).getD
      true = true) {S : Addr} (hS : ∃ s, st.struct? S = some s) :
    ∀ T, st.Nested S T → ∀ st', Keeps ∅ st st' →
      ∃ dups, rpcStructFoundDuplicates E st' T = .ok dups := by
  intro T hT st' hkeep
  have hstruct : ∃ s, st.struct? T = some s := by
    rcases hT.cases_tail with rfl | ⟨U, -, k, hk⟩
    · exact hS
    · obtain ⟨o, ho, hty⟩ := hst.inv.typed U k _ T hk rfl (Set.notMem_empty T) (Finset.notMem_empty _)
      cases o with
      | struct s => exact ⟨s, struct?_eq_some.2 ho⟩
      | sizedbuf b => cases hty
      | function f => cases hty
  obtain ⟨s, hs⟩ := hstruct
  have hlen := hsmall T (Table.mem_keys_iff.2 ⟨_, struct?_eq_some.1 hs⟩)
  rw [hs, Option.map_some, Option.getD_some, decide_eq_true_eq] at hlen
  exact found_of_keeps hs hlen hkeep

/-- "f" gets one copy of 5 twice, and the number. -/
theorem arguments_delivered_twice : ∃ st packed request st1 j received new params cache inv q,
    packRequest .bump ⟨0, [102], 4, 3⟩ ⟨some twiceProto, 0, 0⟩ st twiceArgs = .ok (packed, request) ∧
    Serializes .bump (fun _ => true) packed.store request st1 j ∧
    rpcStructDeserialize .bump st (some j) = .ok (received, new) ∧
    prepareCall received ∅ 3 [102] params = (cache, .ok inv) ∧
    inv.atypes = [.pointer, .pointer, .uint64] ∧ inv.avalues[0]? = some (toLE 8 q) ∧
    inv.avalues[1]? = some (toLE 8 q) ∧ inv.avalues[2]? = some (toLE 8 7) ∧
    CopyItem st received (.struct 5) (.struct q) := by
  have hfacts : ((build .bump .empty twiceOps).map fun st =>
      decide (((st.struct? 5).map fun s => (s.ID, s.map.keys)) =
          some (List.replicate 64 97 ++ [0], [[107]]) ∧
        st.entry 5 [107] = some (.number [9]) ∧ rpcStructIdGet st 3 = List.replicate 64 97 ∧
        (st.struct? 1).isSome = true ∧ (st.struct? 3).isSome = true ∧
        st.entry 1 (List.replicate 64 97) = some (.struct 3) ∧
        st.entry 3 [102] = some (.function 4) ∧
        st.heap.lookup 4 = some (.function ⟨some twiceProto, 0, 0⟩) ∧
        ((packRequest .bump ⟨0, [102], 4, 3⟩ ⟨some twiceProto, 0, 0⟩ st twiceArgs).toOption.map
          fun r => r.1.store.heap.keys.all fun a =>
            ((r.1.store.struct? a).map fun s => decide (s.map.keys.length ≤ 16)).getD true) =
          some true)) = some true := by
    decide +kernel
  obtain ⟨st, hst, hfacts⟩ := Option.map_eq_some_iff.1 hfacts
  obtain ⟨h5, hentry5, hid3, h1, h3, hentry1, hentry3, h4, hsmall⟩ := of_decide_eq_true hfacts
  obtain ⟨s1, hs1⟩ := Option.isSome_iff_exists.1 h1
  obtain ⟨s3, hs3⟩ := Option.isSome_iff_exists.1 h3
  obtain ⟨s5, hs5, hs5eq⟩ := Option.map_eq_some_iff.1 h5
  obtain ⟨hid5, hkeys5⟩ := Prod.mk.inj hs5eq
  have hsane : Sane st := (api_wf (build_reachable (.init rfl) hst).of_restrict).sane
  -- the struct has one entry, a number
  have honly : ∀ k e, st.entry 5 k = some e → e = .number [9] := by
    intro k e he
    have hk : k ∈ s5.map.keys := Table.mem_keys_iff.2 ⟨e, by rw [← entry_of_struct hs5, he]⟩
    rw [hkeys5, List.mem_singleton] at hk
    rw [hk, hentry5] at he
    exact (Option.some.inj he).symm
  have hleaf : ∀ p, ¬ st.Edge 5 p := by
    intro p hp
    obtain ⟨k, hk⟩ := hp
    cases honly k _ hk
  have hnested : ∀ T, st.Nested 5 T → T = 5 := by
    intro T hT
    rcases hT.cases_head with hT | ⟨p, hp, -⟩
    · exact hT.symm
    · exact absurd hp (hleaf p)
  have hfits : Fits st twiceProto twiceArgs := by
    refine ⟨fun i c hi => ?_⟩
    rcases twiceArgs_cases hi with ⟨hcode, hargs⟩ | ⟨hcode, hargs⟩ <;> rw [hargs]
    · refine ⟨.struct, hcode, by decide, fun _ => by decide, fun p hp => ?_⟩
      cases hp
      exact ⟨_, struct?_eq_some.1 hs5, rfl⟩
    · refine ⟨.number, hcode, by decide, fun hc => ?_, fun p hp => ?_⟩
      · cases hc
      · cases hp
  have hcarried : Carried (fun _ => true) st twiceProto twiceArgs := by
    refine ⟨fun i c hi => ?_, fun _ _ _ _ => rfl, fun i c hi hreal => ?_, fun i c hi hstruct => ?_⟩
    · rcases twiceArgs_cases hi with ⟨hcode, -⟩ | ⟨hcode, -⟩ <;> rw [hcode] <;> decide
    · rcases twiceArgs_cases hi with ⟨hcode, -⟩ | ⟨hcode, -⟩ <;> rw [hcode] at hreal <;> cases hreal
    · rcases twiceArgs_cases hi with ⟨-, hargs⟩ | ⟨hcode, -⟩
      · rw [hargs]
        refine ⟨fun T hT hloop => ?_, fun _ _ => rfl, fun T hT => ?_⟩
        · cases hnested T hT
          obtain ⟨p, hp, -⟩ := Relation.TransGen.head'_iff.1 hloop
          exact hleaf p hp
        · cases hnested T hT
          refine ⟨fun s hs => ⟨List.replicate 64 97, ?_, rfl, fun h0 => ?_, rfl⟩, fun _ _ _ => rfl,
            fun _ _ _ _ => rfl, fun k raw hk => by cases honly k _ hk⟩
          · cases hs5.symm.trans hs
            exact hid5
          · cases List.eq_of_mem_replicate h0
      · rw [hcode] at hstruct
        cases hstruct
  obtain ⟨packed, request, hpack, hsend⟩ := @arguments_delivered ⟨0, [102], 4, 3⟩ twiceArgs st .bump
    (fun _ => true) ⟨some twiceProto, 0, 0⟩ hsane ⟨s3, hs3⟩ hfits (fun _ _ => rfl) hcarried rfl rfl
  obtain ⟨packed', request', _, _, hpack', hreq⟩ :=
    @packRequest_spec st ⟨0, [102], 4, 3⟩ ⟨some twiceProto, 0, 0⟩ twiceArgs hsane .bump ⟨s3, hs3⟩ hfits
  rw [hpack] at hpack'
  cases hpack'
  rw [hpack, Except.toOption, Option.map_some, Option.some.injEq, List.all_eq_true] at hsmall
  obtain ⟨st1, j, hser, hserver⟩ := hsend (found_nested hreq.sane hsmall hreq.outer.struct)
  obtain ⟨received, new, hback, hkeeps, hcall⟩ := hserver .bump st hsane
  -- the object and its function are still there
  have hkept : ∀ S s k e, st.struct? S = some s → st.entry S k = some e → received.entry S k = some e := by
    intro S s k e hs he
    obtain ⟨s', hs', -, hmap⟩ := hkeeps.struct (Set.notMem_empty S) hs
    rw [entry_of_struct hs', hmap, ← entry_of_struct hs, he]
  have hget : rpcCobjectGet (callServer received).toRegistry (rpcStructIdGet st 3) = 3 := by
    rw [hid3, rpcCobjectGet, Registry.find, rpcStructGetStruct, rpcStructGetInternal]
    rw [show (callServer received).toRegistry.store = received from rfl,
      show (callServer received).toRegistry.bname = 1 from rfl, hkept 1 s1 _ _ hs1 hentry1]
    rfl
  have hfn : rpcStructGetFunction received 3 [102] = some ⟨some twiceProto, 0, 0⟩ := by
    have hlive := hkeeps.flat (Set.notMem_empty 4) h4 (by decide)
    rw [rpcStructGetFunction, rpcStructGetInternal, hkept 3 s3 _ _ hs3 hentry3, Option.getD_some]
    simp only [hlive]
  obtain ⟨-, params, cache, inv, -, hprep, -, hdelivered⟩ := hcall (callServer received)
    ⟨fun _ _ => rfl, by rw [hget]; decide, ⟨_, by rw [hget]; exact hfn, rfl⟩, fun _ hc => by cases hc⟩
  rw [hget] at hprep
  obtain ⟨hav0, hitem0⟩ := hdelivered.value 0 _ .struct rfl rfl
  obtain ⟨hav1, hitem1⟩ := hdelivered.value 1 _ .struct rfl rfl
  obtain ⟨q, hq⟩ := hitem0.of_struct
  obtain ⟨q', hq'⟩ := hitem1.of_struct
  have hone : q = q' := (hdelivered.same 0 _ .struct 5 q 1 _ .struct 5 q' rfl rfl rfl rfl rfl rfl
    (by rw [hq]; rfl) (by rw [hq']; rfl)).1 rfl
  rw [hq] at hav0 hitem0
  rw [hq', ← hone] at hav1
  exact ⟨st, packed, request, st1, j, received, new, params, cache, inv, q, hpack, hser, hback, hprep,
    hdelivered.types, hav0, hav1, hdelivered.scalar 2 _ .number rfl rfl (.inl rfl), hitem0⟩

end FfiRpc
