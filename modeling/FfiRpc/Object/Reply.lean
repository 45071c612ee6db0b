import FfiRpc.Object.Server
import FfiRpc.Store.Shield
import FfiRpc.Wire.Single

/-!
# The reply to a call

What the server puts into the reply, and the check `call_rpc_closure` makes of it: the
type under "return" has to be the return type the function declares
(rpc_client.c:321-324). A reply without "return" passes for void functions only.

`reply_accepted_iff`: in local and in remote mode the check passes exactly on the ends
of a call that fit the declared type (`CallEnd.FitsLocal`, `CallEnd.FitsRemote`).

A function works through the API and knows what it can reach; of the request and the
reply of its own call it knows nothing (`Discreet`, about the call in hand alone). So when
the request is freed, the reply keeps what it holds, release callbacks on or off. What a
function returns is otherwise its own affair: any number, any text, any other object, and
its arguments among them.
-/
namespace FfiRpc

open State

/-- How the method `call` ends: a field of the request is missing, there is no such
object or function or the prototypes differ, or the function returns. -/
inductive CallEnd where
  | incomplete
  | refused (err : RpcServerErrors)
  | returned (returned : Returned)
  deriving DecidableEq

/-- How `call` ends for the struct `request` of parameters. -/
def callEnd (ffiCall : FfiCall) (s : Server) (request : Addr) : CallEnd :=
  match rpcStructGetString s.store request (ascii "object"),
      rpcStructGetString s.store request (ascii "function"),
      rpcStructGetStruct s.store request (ascii "params") with
  | some cobjName, some fnName, some fnParams =>
    match prepareCall s.store s.protocache (rpcCobjectGet s.toRegistry cobjName) fnName fnParams with
    | (_, .error err) => .refused err
    | (protocache, .ok invocation) =>
      .returned (ffiCall invocation { s with protocache := protocache }).2
  | _, _, _ => .incomplete

/-- `call` makes this invocation, and the function finds the server `s0`. -/
def Invokes (s : Server) (request : Addr) (invocation : Invocation) (s0 : Server) : Prop :=
  ∃ cobjName fnName fnParams protocache,
    rpcStructGetString s.store request (ascii "object") = some cobjName ∧
    rpcStructGetString s.store request (ascii "function") = some fnName ∧
    rpcStructGetStruct s.store request (ascii "params") = some fnParams ∧
    prepareCall s.store s.protocache (rpcCobjectGet s.toRegistry cobjName) fnName fnParams =
      (protocache, .ok invocation) ∧ s0 = { s with protocache := protocache }

/-- The function `call` would run has return type `declared`. -/
def Declares (s : Server) (request : Addr) (declared : RpcTypes) : Prop :=
  ∀ invocation s0, Invokes s request invocation s0 → invocation.fn.returnType = declared.code

/-- The value goes into the reply. -/
def Returned.stored (t : RpcTypes) (returned : Returned) : Bool :=
  t ≠ .none && t ≠ .unknown && !(rpcIsPointer t && returned.value == 0)

/-- The one field of the reply. -/
def CallEnd.field (declared : RpcTypes) : CallEnd → Option (CStr × RpcTypeT)
  | .incomplete => none
  | .refused err => err.text.map fun text => (ascii "error", .string 1 text)
  | .returned r => if r.stored declared then some (ascii "return", returnElement declared r) else none

/-- The check of `call_rpc_closure` passes; `NULL` is not checked.
mirrors src/rpc_client.c:322-324 -/
def replyAccepted (st : State) (reply : Addr) (declared : RpcTypes) : Prop :=
  reply = 0 ∨ rpcStructTypeof st reply (ascii "return") = declared

/-- In local mode an incomplete request gets `NULL` for a reply. -/
def CallEnd.FitsLocal (declared : RpcTypes) : CallEnd → Prop
  | .incomplete => True
  | .refused _ => declared = .none
  | .returned r => declared = .none ∨
      declared ≠ .unknown ∧ (rpcIsPointer declared = true → r.value ≠ 0)

/-- In remote mode an incomplete request gets an empty reply, and a value has to have
a document. -/
def CallEnd.FitsRemote (utf8 : CStr → Bool) (declared : RpcTypes) : CallEnd → Prop
  | .incomplete => declared = .none
  | .refused _ => declared = .none
  | .returned r => declared = .none ∨
      declared ≠ .unknown ∧ (rpcIsPointer declared = true → r.value ≠ 0) ∧
      (declared = .string → utf8 r.text = true) ∧
      (declared = .real → doubleFinite (toLE 8 r.value.toNat) = true)

/-- In this call the function works through the API. It neither touches nor holds the
objects `hidden` from it, nor returns one of them where it returns an object. -/
structure Discreet (ffiCall : FfiCall) (s : Server) (request : Addr) (declared : RpcTypes)
    (hidden : Set Addr) : Prop where
  kept : ∀ invocation s0, Invokes s request invocation s0 → Kept (ffiCall invocation s0).1.store
  unheld : ∀ invocation s0, Invokes s request invocation s0 →
    ∀ a ∈ hidden, (ffiCall invocation s0).1.store.tracker.lookup a = none
  untouched : ∀ invocation s0, Invokes s request invocation s0 →
    ∀ a ∈ hidden, (ffiCall invocation s0).1.store.heap.lookup a = s0.store.heap.lookup a
  unreturned : ∀ invocation s0, Invokes s request invocation s0 →
    ∀ a ∈ hidden, (returnElement declared (ffiCall invocation s0).2).target ≠ some a

/-! ## What the server puts into the reply

At most one field, in a struct that was empty: an error, or what the function returned. A
`NULL` is not stored, nor is anything under a void return type. -/

/-- `st'` is `st` with `field` in the empty struct `reply`. -/
def Put (E : Env) (st : State) (reply : Addr) : Option (CStr × RpcTypeT) → State → Prop
  | none, st' => st' = st
  | some (key, e), st' => ∃ c, st.struct? reply = some c ∧ c.map = ∅ ∧
      st' = (trackElement st reply key e).setObj reply
        (.struct { c with map := c.map.insert key (strdupElement E st e) })

section
variable {E : Env} {ffiCall : FfiCall} {st st' : State} {reply : Addr} {declared : RpcTypes}

/-- The setter, on the empty reply. -/
theorem put_set {c : RpcStruct} (hc : st.struct? reply = some c) (hmap : c.map = ∅) (key : CStr)
    {e : RpcTypeT} (hnn : rpcIsPointer e.type = true → e.ptrValue ≠ 0) :
    ∃ st', Prod.fst <$> rpcStructSetInternal E st reply key e = .ok st' ∧
      Put E st reply (some (key, e)) st' := by
  have hk : c.map.lookup key = none := by rw [hmap]; rfl
  exact ⟨_, by rw [setInternal_fresh hc hk hnn]; rfl, c, hc, hmap, rfl⟩

theorem type_returnElement (t : RpcTypes) (r : Returned) : (returnElement t r).type = t := by
  cases t <;> rfl

theorem target_returnElement {t : RpcTypes} {r : Returned} {p : Addr}
    (h : (returnElement t r).target = some p) : r.value.toNat = p := by
  cases t <;> cases h <;> rfl

/-- What is stored is not `NULL`. -/
theorem returnElement_nonnull {t : RpcTypes} {r : Returned} (h : r.stored t = true) :
    rpcIsPointer (returnElement t r).type = true → (returnElement t r).ptrValue ≠ 0 := by
  intro hp h0
  rw [type_returnElement] at hp
  have hvalue : r.value ≠ 0 := by
    intro hv
    simp [Returned.stored, hp, hv] at h
  have hzero : r.value.toNat = 0 := by
    cases t with
    | none => cases hp
    | number => cases hp
    | real => cases hp
    | _ => exact h0
  exact hvalue (UInt64.toNat_inj.1 hzero)

/-- The returned value goes under "return". -/
theorem setReturn_put {c : RpcStruct} (hc : st.struct? reply = some c) (hmap : c.map = ∅)
    (t : RpcTypes) (r : Returned) : ∃ st', setReturn E st reply t r = .ok st' ∧
      Put E st reply ((CallEnd.returned r).field t) st' := by
  unfold setReturn
  simp only [CallEnd.field]
  by_cases hstored : r.stored t = true
  · have hstored' := hstored
    simp only [Returned.stored, Bool.and_eq_true, decide_eq_true_eq, Bool.not_eq_true',
      Bool.and_eq_false_iff, beq_eq_false_iff_ne] at hstored'
    obtain ⟨hty, hvalue⟩ := hstored'
    have hvalue' : ¬ (rpcIsPointer t = true ∧ r.value = 0) := by
      intro hc
      rcases hvalue with hp | hv
      · rw [hc.1] at hp; cases hp
      · exact hv hc.2
    rw [if_pos hty, if_neg hvalue', if_pos hstored]
    exact put_set hc hmap _ (returnElement_nonnull hstored)
  · rw [if_neg hstored]
    refine ⟨st, ?_, rfl⟩
    by_cases hty : t ≠ .none ∧ t ≠ .unknown
    · have hnull : rpcIsPointer t = true ∧ r.value = 0 := by
        by_contra hc
        rw [not_and_or] at hc
        refine hstored ?_
        simp only [Returned.stored, Bool.and_eq_true, decide_eq_true_eq, Bool.not_eq_true',
          Bool.and_eq_false_iff, beq_eq_false_iff_ne]
        exact ⟨hty, hc.imp Bool.eq_false_of_not_eq_true id⟩
      rw [if_pos hty, if_pos hnull]
    · rw [if_neg hty]

/-- A text goes under its key, if there is one. -/
theorem setString_put {c : RpcStruct} (hc : st.struct? reply = some c) (hmap : c.map = ∅)
    (key : CStr) (text : Option CStr) : ∃ st', rpcStructSetString E st reply key text = .ok st' ∧
      Put E st reply (text.map fun text => (key, .string 1 text)) st' := by
  have hfree : ¬ rpcStructExists st reply key = true := by
    simp [rpcStructExists, rpcStructGetInternal, entry_of_struct hc, hmap, RpcTypeT.type]
  unfold rpcStructSetString
  rw [rpcStructSet, if_neg hfree]
  cases text with
  | none =>
    refine ⟨st, ?_, rfl⟩
    simp [rpcStructSetInternal, hc, RpcTypeT.type, rpcIsPointer, RpcTypeT.ptrValue]
  | some text => exact put_set hc hmap key (e := .string 1 text) fun _ => Nat.one_ne_zero

/-- A call that cannot be prepared says why. -/
theorem prepareCall_error {cache cache' : Protocache} {cobj params : Addr} {fnName : CStr}
    {err : RpcServerErrors} (h : prepareCall st cache cobj fnName params = (cache', .error err)) :
    err ≠ .ok := by
  unfold prepareCall at h
  split at h
  · cases h
    nofun
  · split at h
    · cases h
      nofun
    · split at h
      · cases h
      · cases h
        nofun

theorem Invokes.store {s s0 : Server} {request : Addr} {inv : Invocation}
    (h : Invokes s request inv s0) : s0.store = s.store := by
  obtain ⟨_, _, _, _, -, -, -, -, rfl⟩ := h
  rfl

/-- The method `call`, on an empty reply. -/
theorem call_put {s : Server} {request : Addr} {c : RpcStruct}
    (hempty : ∀ inv s0, Invokes s request inv s0 →
      (ffiCall inv s0).1.store.heap.lookup reply = s0.store.heap.lookup reply)
    (hc : s.store.struct? reply = some c) (hmap : c.map = ∅) (hdecl : Declares s request declared) :
    ∃ s' ret st1, call E ffiCall s request reply = .ok (s', ret) ∧
      Put E st1 reply ((callEnd ffiCall s request).field declared) s'.store ∧
      (ret = 0 ↔ callEnd ffiCall s request ≠ .incomplete) ∧
      ((st1 = s.store ∧ ∀ r, callEnd ffiCall s request ≠ .returned r) ∨
        ∃ inv s0, Invokes s request inv s0 ∧ st1 = (ffiCall inv s0).1.store ∧
          callEnd ffiCall s request = .returned (ffiCall inv s0).2) := by
  unfold call callEnd
  cases hobject : rpcStructGetString s.store request (ascii "object") with
  | none => exact ⟨s, 1, s.store, rfl, rfl, by simp, .inl ⟨rfl, fun r hr => by cases hr⟩⟩
  | some cobjName =>
    cases hfunction : rpcStructGetString s.store request (ascii "function") with
    | none => exact ⟨s, 1, s.store, rfl, rfl, by simp, .inl ⟨rfl, fun r hr => by cases hr⟩⟩
    | some fnName =>
      cases hparams : rpcStructGetStruct s.store request (ascii "params") with
      | none => exact ⟨s, 1, s.store, rfl, rfl, by simp, .inl ⟨rfl, fun r hr => by cases hr⟩⟩
      | some fnParams =>
        simp only [rpcCobjectCall]
        cases hprepare : prepareCall s.store s.protocache (rpcCobjectGet s.toRegistry cobjName) fnName
          fnParams with
        | mk protocache result =>
          cases result with
          | error err =>
            obtain ⟨st', hok, hput⟩ := setString_put (E := E) hc hmap (ascii "error") err.text
            refine ⟨{ s with protocache := protocache, store := st' }, 0, s.store, ?_, hput, by simp,
              .inl ⟨rfl, fun r hr => by cases hr⟩⟩
            simp only [bind, Except.bind]
            rw [if_pos (prepareCall_error hprepare)]
            simp only [hok]
          | ok invocation =>
            have hinvokes : Invokes s request invocation { s with protocache := protocache } :=
              ⟨cobjName, fnName, fnParams, protocache, hobject, hfunction, hparams, hprepare, rfl⟩
            have hcode : RpcTypes.ofCode invocation.fn.returnType = some declared := by
              rw [hdecl invocation _ hinvokes, RpcTypes.ofCode_code]
            have hc1 : (ffiCall invocation { s with protocache := protocache }).1.store.struct? reply =
                some c := (struct?_congr (hempty invocation _ hinvokes)).trans hc
            obtain ⟨st', hok, hput⟩ := setReturn_put (E := E) hc1 hmap declared
              (ffiCall invocation { s with protocache := protocache }).2
            refine ⟨{ (ffiCall invocation { s with protocache := protocache }).1 with store := st' }, 0, _,
              ?_, hput, by simp, .inr ⟨invocation, _, hinvokes, rfl, rfl⟩⟩
            simp only [bind, Except.bind, hcode, hok]
            rfl

/-! ## The reply when the request is gone

The request, or the job it came in, is freed before the reply is read. Nothing holds the
reply, so it stays as it was put together. -/

/-- The struct `call_rpc_closure` sends, with the struct under its "params". -/
structure CallRequest (st : State) (request params : Addr) : Prop where
  method : rpcStructGetString st request (ascii "method") = some (ascii "call")
  params : rpcStructGetStruct st request (ascii "params") = some params

/-- The server once it has made the reply. -/
def Server.replying (E : Env) (s : Server) : Server :=
  { s with store := (rpcStructCreate E s.store).1 }

/-- `c` has `field`, and no other field. -/
def Holds (E : Env) (c : RpcStruct) : Option (CStr × RpcTypeT) → Prop
  | none => c.map = ∅
  | some (key, e) => ∃ st, c.map = (∅ : Table CStr RpcTypeT).insert key (strdupElement E st e)

theorem Put.struct {field : Option (CStr × RpcTypeT)} {c : RpcStruct} (h : Put E st reply field st')
    (hc : st.struct? reply = some c) (hmap : c.map = ∅) :
    ∃ c', st'.struct? reply = some c' ∧ Holds E c' field := by
  cases field with
  | none =>
    subst h
    exact ⟨c, hc, hmap⟩
  | some f =>
    obtain ⟨c1, hc1, hmap1, rfl⟩ := h
    exact ⟨_, by rw [struct?_setObj_struct, if_pos rfl], st, by rw [hmap1]⟩

theorem Put.kept {field : Option (CStr × RpcTypeT)} (h : Put E st reply field st')
    (hst : Kept st) (h0 : reply ≠ 0) : Kept st' := by
  cases field with
  | none =>
    subst h
    exact hst
  | some f =>
    obtain ⟨c, hc, hmap, rfl⟩ := h
    exact hst.insert E hc h0 (by rw [hmap]; rfl) f.2

theorem Put.untracked {field : Option (CStr × RpcTypeT)} (h : Put E st reply field st') {a : Addr}
    (ha : st.tracker.lookup a = none) (hf : ∀ f, field = some f → f.2.target ≠ some a) :
    st'.tracker.lookup a = none := by
  cases field with
  | none =>
    subst h
    exact ha
  | some f =>
    obtain ⟨c, hc, hmap, rfl⟩ := h
    rw [tracker_setObj, trackElement_other reply f.1 (hf f rfl)]
    exact ha

/-- Only what the function returned has a target: an error is a text. -/
theorem CallEnd.field_target {callEnd : CallEnd} {f : CStr × RpcTypeT} {p : Addr}
    (h : callEnd.field declared = some f) (hp : f.2.target = some p) :
    ∃ r, callEnd = .returned r ∧ (returnElement declared r).target = some p := by
  cases callEnd with
  | incomplete => cases h
  | refused err =>
    obtain ⟨text, -, rfl⟩ := Option.map_eq_some_iff.1 h
    cases hp
  | returned r =>
    simp only [CallEnd.field] at h
    split at h
    · cases h
      exact ⟨r, rfl, hp⟩
    · cases h

theorem getInternal_create {o : Obj} {S : Addr} {key : CStr} {e : RpcTypeT}
    (h : st.entry S key = some e) : rpcStructGetInternal (st.setObj (E.malloc st) o) S key = e := by
  have hS : S ≠ E.malloc st := by
    intro hc
    obtain ⟨s, hs, -⟩ := entry_eq_some.1 h
    have hl := struct?_eq_some.1 hs
    rw [hc, malloc_dead] at hl; cases hl
  have hsame : (st.setObj (E.malloc st) o).entry S key = st.entry S key :=
    entry_congr (by rw [lookup_setObj, if_neg hS]) key
  rw [rpcStructGetInternal, hsame, h, Option.getD_some]

/-- Making the reply leaves the request alone. -/
theorem CallRequest.create {request params : Addr} (h : CallRequest st request params) (o : Obj) :
    CallRequest (st.setObj (E.malloc st) o) request params := by
  have hget : ∀ key e, rpcStructGetInternal st request key = e → e ≠ .none →
      rpcStructGetInternal (st.setObj (E.malloc st) o) request key = e := by
    intro key e he hne
    unfold rpcStructGetInternal at he
    cases hentry : st.entry request key with
    | none =>
      rw [hentry] at he
      exact absurd he.symm hne
    | some e' =>
      rw [hentry] at he
      cases he
      exact getInternal_create hentry
  obtain ⟨hmethod, hparams⟩ := h
  unfold rpcStructGetString at hmethod
  unfold rpcStructGetStruct at hparams
  split at hmethod
  · rename_i p text hm
    split at hparams
    · rename_i q hp
      cases hmethod
      cases hparams
      refine ⟨?_, ?_⟩
      · rw [rpcStructGetString, hget _ _ hm nofun]
      · rw [rpcStructGetStruct, hget _ _ hp nofun]
    · cases hparams
  · cases hmethod

theorem methods_call : methods E ffiCall (ascii "call") = some (call E ffiCall) := rfl

/-- What the server's side leaves: the books in order, and in the reply, which nothing
holds, the field of the end. -/
theorem job_reply {s : Server} {request params root : Addr} (hst : Kept s.store)
    (hlive : ∀ q r, s.store.tracker.lookup q = some r → ∃ o, s.store.heap.lookup q = some o)
    (hroot : s.store.tracker.lookup root = none)
    (hreq : CallRequest s.store request params)
    (hffi : Discreet ffiCall (s.replying E) params declared {root, E.malloc s.store})
    (hdecl : Declares (s.replying E) params declared) :
    ∃ s1 ret, rpcServerLocalnetJob E ffiCall (s.replying E) request (E.malloc s.store) =
        .ok (s1, ret) ∧
      (ret = 0 ↔ callEnd ffiCall (s.replying E) params ≠ .incomplete) ∧ Kept s1.store ∧
      s1.store.tracker.lookup (E.malloc s.store) = none ∧ s1.store.tracker.lookup root = none ∧
      ∃ c, s1.store.struct? (E.malloc s.store) = some c ∧
        Holds E c ((callEnd ffiCall (s.replying E) params).field declared) := by
  have hreply : s.store.tracker.lookup (E.malloc s.store) = none := by
    cases hr : s.store.tracker.lookup (E.malloc s.store) with
    | none => rfl
    | some r =>
      obtain ⟨o, ho⟩ := hlive _ r hr
      rw [malloc_dead] at ho; cases ho
  have hkept : Kept (s.replying E).store := hst.create E (by intro c hc; cases hc; rfl)
  have hstruct : (s.replying E).store.struct? (E.malloc s.store) =
      some ⟨∅, E.random s.store ++ [0], 0⟩ := by
    rw [Server.replying, rpcStructCreate, struct?_setObj_struct, if_pos rfl]
  obtain ⟨s1, ret, st1, hok, hput, hret, hst1⟩ :=
    call_put (fun inv s0 hinv => hffi.untouched inv s0 hinv _ (.inr rfl)) hstruct rfl hdecl
  have hjob : rpcServerLocalnetJob E ffiCall (s.replying E) request (E.malloc s.store) =
      .ok (s1, ret) := by
    have hreq' : CallRequest (s.replying E).store request params := hreq.create _
    rw [rpcServerLocalnetJob, hreq'.method]
    simp only [methods_call, hreq'.params, Option.getD_some]
    exact hok
  -- the store into which the field went
  obtain ⟨hkept1, hreply1, hroot1, hstruct1⟩ : Kept st1 ∧
      st1.tracker.lookup (E.malloc s.store) = none ∧ st1.tracker.lookup root = none ∧
      st1.struct? (E.malloc s.store) = some ⟨∅, E.random s.store ++ [0], 0⟩ := by
    rcases hst1 with ⟨rfl, -⟩ | ⟨inv, s0, hinv, rfl, -⟩
    · exact ⟨hkept, hreply, hroot, hstruct⟩
    · refine ⟨hffi.kept inv s0 hinv, hffi.unheld inv s0 hinv _ (.inr rfl),
        hffi.unheld inv s0 hinv _ (.inl rfl), ?_⟩
      rw [struct?_congr (hffi.untouched inv s0 hinv _ (.inr rfl)), hinv.store]
      exact hstruct
  have htarget : ∀ a, a = root ∨ a = E.malloc s.store → ∀ f,
      (callEnd ffiCall (s.replying E) params).field declared = some f → f.2.target ≠ some a := by
    intro a ha f hf hp
    obtain ⟨r, hr, hvalue⟩ := CallEnd.field_target hf hp
    rcases hst1 with ⟨-, hno⟩ | ⟨inv, s0, hinv, -, hend⟩
    · exact hno r hr
    · rw [hr] at hend
      cases hend
      exact hffi.unreturned inv s0 hinv a ha hvalue
  exact ⟨s1, ret, hjob, hret, hput.kept hkept1 (malloc_ne_zero E s.store),
    hput.untracked hreply1 (htarget _ (.inr rfl)), hput.untracked hroot1 (htarget _ (.inl rfl)),
    hput.struct hstruct1 rfl⟩

/-- The type under "return". -/
def CallEnd.replyType (declared : RpcTypes) : CallEnd → RpcTypes
  | .returned r => if r.stored declared then declared else .none
  | _ => .none

/-- The same, after the reply has been a document. -/
def CallEnd.wireType (utf8 : CStr → Bool) (declared : RpcTypes) : CallEnd → RpcTypes
  | .returned r =>
    if r.stored declared && (returnElement declared r).travels utf8 then declared else .none
  | _ => .none

theorem Holds.one {c : RpcStruct} {field : Option (CStr × RpcTypeT)} (h : Holds E c field) :
    c.map.keys.length ≤ 1 := by
  cases field with
  | none =>
    rw [show c.map = ∅ from h]
    exact Nat.zero_le _
  | some f =>
    obtain ⟨st, hmap⟩ := h
    rw [hmap]
    exact Nat.le_refl 1

/-- The field is there, with its value, and no other. -/
theorem Holds.lookup {c : RpcStruct} {f : CStr × RpcTypeT} (h : Holds E c (some f)) :
    ∃ e, f.2.SameValue e ∧ (rpcIsPointer f.2.type = true → f.2.ptrValue ≠ 0 → e.ptrValue ≠ 0) ∧
      ∀ k, c.map.lookup k = if k = f.1 then some e else none := by
  obtain ⟨st, hmap⟩ := h
  obtain ⟨key, e⟩ := f
  refine ⟨strdupElement E st e, sameValue_strdupElement e, fun _ hnn => ?_, fun k => ?_⟩
  · cases e with
    | string q t => exact malloc_ne_zero E st
    | _ => exact hnn
  · rw [hmap, Table.lookup_insert_if, AList.lookup_empty]

theorem CallEnd.field_some {callEnd : CallEnd} {f : CStr × RpcTypeT}
    (h : callEnd.field declared = some f) : f.2.type ≠ .unknown ∧
      (rpcIsPointer f.2.type = true → f.2.ptrValue ≠ 0) := by
  cases callEnd with
  | incomplete => cases h
  | refused err =>
    obtain ⟨text, -, rfl⟩ := Option.map_eq_some_iff.1 h
    exact ⟨nofun, fun _ => Nat.one_ne_zero⟩
  | returned r =>
    simp only [CallEnd.field] at h
    split at h
    · rename_i hstored
      cases h
      refine ⟨fun hc => ?_, returnElement_nonnull hstored⟩
      rw [type_returnElement] at hc
      simp [Returned.stored, hc] at hstored
    · cases h

/-- What the reply has under "return". -/
theorem Holds.return {c : RpcStruct} {callEnd : CallEnd} (h : Holds E c (callEnd.field declared))
    (hc : st.struct? reply = some c) :
    (rpcStructGetInternal st reply (ascii "return")).type = callEnd.replyType declared ∧
    ∀ utf8, (if (rpcStructGetInternal st reply (ascii "return")).travels utf8 then
        (rpcStructGetInternal st reply (ascii "return")).type else .none) =
      callEnd.wireType utf8 declared := by
  have hreturn : ascii "return" ≠ ascii "error" := by decide +kernel
  have hget : rpcStructGetInternal st reply (ascii "return") =
      (c.map.lookup (ascii "return")).getD .none := by
    rw [rpcStructGetInternal, entry_of_struct hc]
  have hnone : c.map.lookup (ascii "return") = none →
      rpcStructGetInternal st reply (ascii "return") = .none := by
    intro hl
    rw [hget, hl]
    rfl
  cases callEnd with
  | incomplete =>
    rw [hnone (by rw [show c.map = ∅ from h]; rfl)]
    exact ⟨rfl, fun _ => rfl⟩
  | refused err =>
    have hl : c.map.lookup (ascii "return") = none := by
      cases htext : err.text with
      | none =>
        simp only [CallEnd.field, htext, Option.map_none] at h
        rw [show c.map = ∅ from h]
        rfl
      | some text =>
        simp only [CallEnd.field, htext, Option.map_some] at h
        obtain ⟨e, -, -, hlookup⟩ := h.lookup
        rw [hlookup, if_neg hreturn]
    rw [hnone hl]
    exact ⟨rfl, fun _ => rfl⟩
  | returned r =>
    simp only [CallEnd.field] at h
    cases hstored : r.stored declared with
    | false =>
      rw [hstored, if_neg Bool.false_ne_true] at h
      rw [hnone (by rw [show c.map = ∅ from h]; rfl)]
      exact ⟨by simp [CallEnd.replyType, hstored, RpcTypeT.type],
        fun utf8 => by simp [CallEnd.wireType, hstored, RpcTypeT.travels]⟩
    | true =>
      rw [hstored, if_pos rfl] at h
      obtain ⟨e, hv, -, hlookup⟩ := h.lookup
      have hget' : rpcStructGetInternal st reply (ascii "return") = e := by
        rw [hget, hlookup, if_pos rfl, Option.getD_some]
      have hty : e.type = declared := hv.type.trans (type_returnElement declared r)
      rw [hget', hty]
      refine ⟨by rw [CallEnd.replyType, hstored, if_pos rfl], fun utf8 => ?_⟩
      rw [CallEnd.wireType, hstored, Bool.true_and, hv.travels]

/-- What fits is what has the declared type under "return". -/
theorem fitsLocal_iff {callEnd : CallEnd} : callEnd.FitsLocal declared ↔
    callEnd = .incomplete ∨ callEnd.replyType declared = declared := by
  cases callEnd with
  | incomplete => simp [CallEnd.FitsLocal]
  | refused err => simp [CallEnd.FitsLocal, CallEnd.replyType, eq_comm]
  | returned r =>
    simp only [CallEnd.FitsLocal, CallEnd.replyType, Returned.stored]
    cases declared <;> simp [rpcIsPointer]

/-- Which values have a document: not an address of unknown type, not a text that is no
UTF-8, not a number that is NaN or infinite. -/
theorem travels_returnElement {utf8 : CStr → Bool} {r : Returned} :
    (returnElement declared r).travels utf8 = true ↔ declared ≠ .none ∧ declared ≠ .unknown ∧
      (declared = .string → utf8 r.text = true) ∧
      (declared = .real → doubleFinite (toLE 8 r.value.toNat) = true) := by
  cases declared with
  | real =>
    have h4 : ¬ (toLE 8 r.value.toNat).length = 4 := by rw [length_toLE]; decide
    have h8 : (toLE 8 r.value.toNat).length = 8 := length_toLE 8 _
    simp only [returnElement, RpcTypeT.travels, serializeReal, if_neg h4, if_pos h8]
    split <;> simp_all
  | _ => simp [returnElement, RpcTypeT.travels]

/-- And, over TCP, what has it there when the reply has been a document. -/
theorem fitsRemote_iff {utf8 : CStr → Bool} {callEnd : CallEnd} :
    callEnd.FitsRemote utf8 declared ↔ callEnd.wireType utf8 declared = declared := by
  cases callEnd with
  | incomplete => simp [CallEnd.FitsRemote, CallEnd.wireType, eq_comm]
  | refused err => simp [CallEnd.FitsRemote, CallEnd.wireType, eq_comm]
  | returned r =>
    simp only [CallEnd.FitsRemote, CallEnd.wireType]
    have htravels := @travels_returnElement declared utf8 r
    by_cases hnone : declared = .none
    · simp [hnone]
    · have hne : RpcTypes.none ≠ declared := Ne.symm hnone
      have hstored : r.stored declared = true ↔
          declared ≠ .unknown ∧ (rpcIsPointer declared = true → r.value ≠ 0) := by
        cases hp : rpcIsPointer declared <;> simp [Returned.stored, hnone, hp]
      have hif : (if r.stored declared && (returnElement declared r).travels utf8 then declared
          else RpcTypes.none) = declared ↔
          r.stored declared = true ∧ (returnElement declared r).travels utf8 = true := by
        split
        · rename_i h
          simpa using h
        · rename_i h
          refine ⟨fun hc => absurd hc hne, fun hc => absurd ?_ h⟩
          simpa using hc
      rw [hif, hstored, htravels]
      constructor
      · intro h
        obtain ⟨hunknown, hvalue, hstring, hreal⟩ := h.resolve_left hnone
        exact ⟨⟨hunknown, hvalue⟩, hnone, hunknown, hstring, hreal⟩
      · intro h
        obtain ⟨⟨hunknown, hvalue⟩, -, -, hstring, hreal⟩ := h
        exact .inr ⟨hunknown, hvalue, hstring, hreal⟩

/-! ## The check

Both modes come down to the type under "return" in the reply that is left. -/

theorem live_of_get {S : Addr} {key : CStr} (h : rpcStructGetInternal st S key ≠ .none) :
    ∃ o, st.heap.lookup S = some o := by
  cases hentry : st.entry S key with
  | none =>
    rw [rpcStructGetInternal, hentry] at h
    exact absurd rfl h
  | some e =>
    obtain ⟨c, hc, -⟩ := entry_eq_some.1 hentry
    exact ⟨_, struct?_eq_some.1 hc⟩

theorem get_of_getStruct {S p : Addr} {key : CStr} (h : rpcStructGetStruct st S key = some p) :
    rpcStructGetInternal st S key = .struct p := by
  unfold rpcStructGetStruct at h
  split at h
  · rename_i q hq
    cases h
    exact hq
  · cases h

theorem CallRequest.live {request params : Addr} (h : CallRequest st request params) :
    ∃ o, st.heap.lookup request = some o := by
  have hget := get_of_getStruct h.params
  exact live_of_get (by rw [hget]; nofun)

/-- A struct that nothing holds, freed, leaves another one alone. -/
theorem Kept.free_untracked (hst : Kept st) {root : Addr}
    (hroot : st.tracker.lookup root = none) (hreply : st.tracker.lookup reply = none)
    (hne : root ≠ reply) (hok : rpcStructFree E st root = .ok st') :
    st'.struct? reply = st.struct? reply := by
  have hfar : root ∉ {a | st.Hangs reply a} := by
    intro hin
    rcases Relation.ReflTransGen.cases_tail hin with heq | ⟨S, -, k, hk⟩
    · exact hne heq
    · obtain ⟨r, hr, -⟩ := hst.counted S k root hk
      rw [hroot] at hr; cases hr
  have hspared := (hst.shielded hreply).free E hfar hok
  exact struct?_congr (hspared.same reply Relation.ReflTransGen.refl)

/-- What the reply holds once `root`, the request or what carries it, is freed. -/
theorem replied {s : Server} {request params root : Addr} (hst : Kept s.store)
    (hlive : ∀ q r, s.store.tracker.lookup q = some r → ∃ o, s.store.heap.lookup q = some o)
    (hroot : s.store.tracker.lookup root = none) (hrootlive : ∃ o, s.store.heap.lookup root = some o)
    (hreq : CallRequest s.store request params)
    (hffi : Discreet ffiCall (s.replying E) params declared {root, E.malloc s.store})
    (hdecl : Declares (s.replying E) params declared) :
    ∃ s1 ret, rpcServerLocalnetJob E ffiCall (s.replying E) request (E.malloc s.store) =
        .ok (s1, ret) ∧
      (ret = 0 ↔ callEnd ffiCall (s.replying E) params ≠ .incomplete) ∧
      ∀ st', rpcStructFree E s1.store root = .ok st' →
        ∃ c, st'.struct? (E.malloc s.store) = some c ∧
          Holds E c ((callEnd ffiCall (s.replying E) params).field declared) := by
  obtain ⟨s1, ret, hjob, hret, hkept, hreply1, hroot1, c, hc, hholds⟩ :=
    job_reply hst hlive hroot hreq hffi hdecl
  refine ⟨s1, ret, hjob, hret, fun st' hfree => ⟨c, ?_, hholds⟩⟩
  have hne : root ≠ E.malloc s.store := by
    intro heq
    obtain ⟨o, ho⟩ := hrootlive
    rw [heq, malloc_dead] at ho; cases ho
  rw [hkept.free_untracked hroot1 hreply1 hne hfree, hc]

end

instance (st : State) (reply : Addr) (declared : RpcTypes) :
    Decidable (replyAccepted st reply declared) := inferInstanceAs (Decidable (_ ∨ _))

/-- An object "o" with a function "f" that takes and returns a sizedbuf; two requests to
call it with the sizedbuf 14, 9 and 11; the second is in the job 13. -/
def callOps : List Op :=
  [.structCreate, .structCreate, .structCreate, .functionCreate,
    .setReturnType 4 RpcTypes.sizedbuf.code, .setPrototype 4 [RpcTypes.sizedbuf.code],
    .set 3 [102] (.function 4), .set 1 [111] (.struct 3),
    .structCreate, .structCreate,
    .set 6 (ascii "object") (.string 1 [111]), .set 6 (ascii "function") (.string 1 [102]),
    .set 6 (ascii "params") (.struct 5), .structCreate,
    .set 9 (ascii "method") (.string 1 (ascii "call")), .set 9 (ascii "params") (.struct 6),
    .structCreate,
    .set 11 (ascii "method") (.string 1 (ascii "call")), .set 11 (ascii "params") (.struct 6),
    .structCreate, .set 13 (ascii "request") (.struct 11), .sizedbufCreate [7],
    .set 5 (ascii "0") (.sizedbuf 14)]

/-- The server with that store. -/
def callServer (st : State) : Server := ⟨⟨st, 1, 2⟩, ∅⟩

/-- The store, with what has to be known of it. -/
theorem callOps_built : ∃ st, build .bump .empty callOps = some st ∧ graphApi.Reachable st ∧
    CallRequest st 9 6 ∧ CallRequest st 11 6 ∧
    rpcStructGetStruct st 13 (ascii "request") = some 11 ∧
    st.tracker.lookup 9 = none ∧ st.tracker.lookup 13 = none ∧ Env.bump.malloc st = 15 ∧
    st.tracker.lookup 15 = none ∧
    ∀ inv s0, Invokes ((callServer st).replying .bump) 6 inv s0 →
      inv.fn.returnType = RpcTypes.sizedbuf.code ∧ inv.avalues = [toLE 8 14] := by
  have hfacts : ((build .bump .empty callOps).map fun st =>
      decide (rpcStructGetString st 9 (ascii "method") = some (ascii "call") ∧
        rpcStructGetStruct st 9 (ascii "params") = some 6 ∧
        rpcStructGetString st 11 (ascii "method") = some (ascii "call") ∧
        rpcStructGetStruct st 11 (ascii "params") = some 6 ∧
        rpcStructGetStruct st 13 (ascii "request") = some 11 ∧
        st.tracker.lookup 9 = none ∧ st.tracker.lookup 13 = none ∧ Env.bump.malloc st = 15 ∧
        st.tracker.lookup 15 = none ∧
        rpcStructGetString (rpcStructCreate .bump st).1 6 (ascii "object") = some [111] ∧
        rpcStructGetString (rpcStructCreate .bump st).1 6 (ascii "function") = some [102] ∧
        rpcStructGetStruct (rpcStructCreate .bump st).1 6 (ascii "params") = some 5 ∧
        (prepareCall (rpcStructCreate .bump st).1 ∅ 3 [102] 5).2.toOption.map
          (fun inv => (inv.fn.returnType, inv.avalues)) =
            some (RpcTypes.sizedbuf.code, [toLE 8 14]) ∧
        rpcCobjectGet ((callServer st).replying .bump).toRegistry [111] = 3)) = some true := by
    decide +kernel
  obtain ⟨st, hst, hfacts⟩ := Option.map_eq_some_iff.1 hfacts
  obtain ⟨h1, h2, h3, h4, h5, h6, h7, h8, h9, hobject, hfunction, hparams, hprepare, hcobj⟩ :=
    of_decide_eq_true hfacts
  refine ⟨st, hst, build_reachable (.init rfl) hst, ⟨h1, h2⟩, ⟨h3, h4⟩, h5, h6, h7, h8, h9, ?_⟩
  rintro inv s0 ⟨cobjName, fnName, fnParams, protocache, ho, hf, hp, hok, -⟩
  cases hobject.symm.trans ho
  cases hfunction.symm.trans hf
  cases hparams.symm.trans hp
  rw [hcobj] at hok
  simp only [Server.replying, callServer] at hok
  rw [hok] at hprepare
  exact Prod.mk.inj (Option.some.inj hprepare)

/-- A function that leaves the server as it finds it is discreet unless it returns one of
the hidden objects. -/
theorem discreet_pure {E : Env} {ffiCall : FfiCall} {s : Server} {params : Addr}
    {declared : RpcTypes} {hidden : Set Addr} (hst : Kept s.store)
    (hloose : ∀ a ∈ hidden, s.store.tracker.lookup a = none)
    (hpure : ∀ inv s0, (ffiCall inv s0).1 = s0)
    (hreturn : ∀ inv s0, Invokes (s.replying E) params inv s0 →
      ∀ a ∈ hidden, (returnElement declared (ffiCall inv s0).2).target ≠ some a) :
    Discreet ffiCall (s.replying E) params declared hidden := by
  have hkept : Kept (s.replying E).store := hst.create E (by intro c hc; cases hc; rfl)
  refine ⟨fun inv s0 h => ?_, fun inv s0 h a ha => ?_, fun inv s0 h a ha => ?_, hreturn⟩
  · rw [hpure, h.store]
    exact hkept
  · rw [hpure, h.store]
    exact hloose a ha
  · rw [hpure]

/-- The function that returns its first argument. -/
def returnsArgument : FfiCall := fun inv s =>
  (s, ⟨UInt64.ofNat (ofLE (inv.avalues.headD [])), []⟩)

end FfiRpc
