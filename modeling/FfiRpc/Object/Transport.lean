import FfiRpc.Object.Borrowed
import FfiRpc.Wire.Arrival

/-!
# How a client's requests are answered

`client->method_request` is `local_requestor`, which calls the server in the same process,
or `tcp_requestor`. Of the latter the model has what it does to the client's store: the
request is written and freed, and what comes back, if anything does, is read. What comes
back for a message is a parameter, `exchange`; `Peer` says that the other side writes its
replies as a server does, with `rpc_struct_serialize`.

`Received` is the reply when the closure gets it. It has what the server put into it
(`Connection.Replies`), down to what hangs on that (`reply_received`).
-/
namespace FfiRpc

open State

/-- mirrors src/rpc_client.c:77-94 (`tcp_requestor`), with rpc_network.c:233-250; `n` bounds
the nesting of the request -/
def tcpRequestor (E : Env) (utf8 : CStr → Bool) (n : Nat) (exchange : State → Json → Option Document)
    (s : Server) (request : Addr) : Except Fault (Server × Addr) := do
  let (st1, send) ← rpcStructSerialize E utf8 n s.store request
  let st2 ← rpcStructFree E st1 request
  let (st3, reply) ← rpcStructDeserialize E st2 ((exchange st2 send).map Document.json)
  .ok ({ s with store := st3 }, reply)

/-- What `rpc_client_connect_local` or `rpc_client_connect_tcp` has set up. -/
inductive Connection where
  | inProcess (ffiCall : FfiCall)
  | tcp (n : Nat) (exchange : State → Json → Option Document)

/-- `client->method_request` -/
def Connection.methodRequest (E : Env) (utf8 : CStr → Bool) :
    Connection → Server → Addr → Except Fault (Server × Addr)
  | .inProcess ffiCall => localRequestor E ffiCall
  | .tcp n exchange => tcpRequestor E utf8 n exchange

/-- Each message was written by `rpc_struct_serialize`. -/
def Peer (exchange : State → Json → Option Document) : Prop :=
  ∀ st j d, exchange st j = some d → ∃ server A S, RepItem server A False (.struct S) d.json

/-- What the client relies on: that the function it calls works through the API, or that its
peer is a server. -/
def Connection.Sound (r0 : Registry) (udata : RpcClosureUdata) (proto : List UInt32)
    (args : Nat → Passed) : Connection → Prop
  | .inProcess ffiCall => Tidy ffiCall r0 udata proto args
  | .tcp _ exchange => Peer exchange

/-- `reply` is what the server has put together for the request, in the store `st`: what is in
the reply when its method has returned, or what came of the struct that it wrote. -/
inductive Connection.Replies (E : Env) (utf8 : CStr → Bool) (s : Server) (request : Addr) :
    Connection → State → Addr → Prop
  | inProcess {ffiCall s2} :
    rpcServerLocalnetJob E ffiCall (s.replying E) request (E.malloc s.store) = .ok (s2, 0) →
    Connection.Replies E utf8 s request (.inProcess ffiCall) s2.store (E.malloc s.store)
  | tcp {n exchange st1 st2 send d server A S st reply} :
    rpcStructSerialize E utf8 n s.store request = .ok (st1, send) →
    rpcStructFree E st1 request = .ok st2 → exchange st2 send = some d →
    RepItem server A False (.struct S) d.json →
    CopyItem server st (.struct S) (.struct reply) →
    Connection.Replies E utf8 s request (.tcp n exchange) st reply

/-- A reply that has arrived: a struct that nothing holds. -/
structure Received (st : State) (reply : Addr) : Prop where
  sane : Sane st
  struct : ∃ r, st.struct? reply = some r
  unheld : ∀ S k, st.held S k ≠ some reply
  loud : reply ∉ st.silent

/-! ## Over TCP -/

section
variable {E : Env} {utf8 : CStr → Bool} {off : Finset Addr} {st st' : State} {s s' : Server}
  {exchange : State → Json → Option Document} {request reply : Addr} {n : Nat}

/-- A message is written. -/
theorem serialize_later (h : Muted off st) {S : Addr} (hs : ∃ s, st.struct? S = some s) {j : Json}
    (hok : rpcStructSerialize E utf8 n st S = .ok (st', j)) : Later off ∅ st st' := by
  have hsent : Yields True (rpcStructSerialize E utf8 n st S) (Sent utf8 off st st.surplus st S) :=
    serialize_spec E utf8 True h.inv h.stored h.live n _ st S h.inv h.stored (.refl ∅ st) hs
      fun hb => absurd trivial hb
  obtain ⟨extra', hinv, hstored, hframe, hmore, -, -⟩ := hsent.of_ok hok
  refine ⟨hinv.muted hstored fun p hp => ?_, hframe.keeps, fun a o ho => ?_, fun S k p hh => ?_,
    fun S k p hh => .inl ?_⟩
  · obtain ⟨o, ho⟩ := h.live p hp
    obtain ⟨o', ho', -⟩ := hframe.keeps p o (Set.notMem_empty p) ho
    exact ⟨o', ho'⟩
  · obtain ⟨o', ho', hl⟩ := hframe.keeps a o (Set.notMem_empty a) ho
    exact ⟨o', ho', hl.type⟩
  · have hh' := (hframe.held (Set.notMem_empty S) k).trans hh
    exact ⟨hh', (hmore p).trans (Nat.le_of_eq (Muted.surplus_eq hinv hh').symm)⟩
  · rwa [hframe.held (Set.notMem_empty S)] at hh

/-- The request is gone, and the reply, if there is one, is new. -/
theorem tcpRequestor_spec (hpeer : Peer exchange) (h : Muted off s.store)
    (hs : ∃ r, s.store.struct? request = some r) (hloud : request ∉ off)
    (hok : tcpRequestor E utf8 n exchange s request = .ok (s', reply)) :
    ∃ st1 send st2, rpcStructSerialize E utf8 n s.store request = .ok (st1, send) ∧
      Later off ∅ s.store st1 ∧ rpcStructFree E st1 request = .ok st2 ∧ Muted off st2 ∧
      (reply = 0 ∧ s'.store = st2 ∨ ∃ d, exchange st2 send = some d ∧
        Arrived off st2 s'.store reply ∧ RepItem s'.store st2.dead True (.struct reply) d.json) := by
  obtain ⟨⟨st1, send⟩, hsend, hok⟩ := bind_eq_ok.1 hok
  obtain ⟨st2, hfree, hok⟩ := bind_eq_ok.1 hok
  obtain ⟨⟨st3, p⟩, hread, hok⟩ := bind_eq_ok.1 hok
  cases hok
  have h1 := serialize_later h hs hsend
  obtain ⟨r, hr⟩ := hs
  obtain ⟨r1, hr1⟩ := h1.struct hr
  obtain ⟨st2', hfree', h2, -⟩ := h1.muted.free E hr1 hloud
  rw [hfree] at hfree'
  cases hfree'
  refine ⟨st1, send, st2, hsend, h1, hfree, h2, ?_⟩
  cases hd : exchange st2 send with
  | none =>
    rw [hd] at hread
    cases hread
    exact .inl ⟨rfl, rfl⟩
  | some d =>
    rw [hd] at hread
    obtain ⟨server, A, S, hrep⟩ := hpeer st2 send d hd
    have hname : d.json.typeName = some (ascii "RPC_struct") := by
      generalize d.json = j at hrep
      cases hrep
      exact typeName_struct ..
    exact .inr ⟨d, rfl, arrives h2 ⟨server, A, _, hrep⟩ hname hread⟩

theorem Arrived.received (h : Arrived off st st' reply) (hst : Muted off st) : Received st' reply :=
  ⟨h.later.muted.sane, h.struct, h.unheld, h.later.muted.loud (hst.dead h.dead)⟩

end

/-! ## In the same process -/

section
variable {E : Env} {ffiCall : FfiCall} {r0 : Registry} {udata : RpcClosureUdata} {proto : List UInt32}
  {args : Nat → Passed} {infos : Table Addr Bool} {request callRequest fnArgs : Addr} {s s2 : Server}
  {stA : State} {field : Option (CStr × RpcTypeT)}

/-- What hangs on the reply is not lost with the request. -/
theorem Answered.received
    (h : Answered E ffiCall r0 udata proto args request callRequest fnArgs s s2 stA field)
    (hreq : Requested udata proto args r0.store s.store infos request callRequest fnArgs) :
    ∃ st', localRequestor E ffiCall s request = .ok ({ s2 with store := st' }, E.malloc s.store) ∧
      Received st' (E.malloc s.store) ∧
      ∀ a, s2.store.Hangs (E.malloc s.store) a → KeptAt s2.store st' a := by
  obtain ⟨st', hok, hswept, hout, hfields, hloose⟩ := h.requestor hreq rfl
  refine ⟨st', hok, ⟨hswept.sane, hfields.struct, fun S k hh => ?_, Sane.loud_of_untracked hloose⟩,
    fun a ha o ho => hswept.stay a o (hangs_notMem_lost (fun S k hh => ?_) hout ha) ho⟩
  · obtain ⟨r, hr⟩ := hswept.sane.held_tracked hh
    rw [hloose] at hr
    cases hr
  · obtain ⟨r, hr⟩ := h.replied.sane.held_tracked hh
    rw [(h.sent request List.mem_cons_self).2, hreq.loose] at hr
    cases hr

end

/-! ## Either way -/

section
variable {E : Env} {utf8 : CStr → Bool} {conn : Connection} {r0 : Registry} {udata : RpcClosureUdata}
  {proto : List UInt32} {args : Nat → Passed} {infos : Table Addr Bool}
  {request callRequest fnArgs reply : Addr} {s s1 s' : Server} {st st' : State}

/-- The reply of a call. -/
theorem reply_received (hs : s.toRegistry = { r0 with store := s.store })
    (hreq : Requested udata proto args r0.store s.store infos request callRequest fnArgs)
    (htyped : ∀ (i : Nat) c, proto[i]? = some c → ∃ t, RpcTypes.ofCode c = some t ∧ t ≠ .none)
    (hconn : conn.Sound r0 udata proto args)
    (hok : conn.methodRequest E utf8 s request = .ok (s1, reply)) (h0 : reply ≠ 0) :
    Received s1.store reply ∧ ∃ st, conn.Replies E utf8 s request st reply ∧ Sane st ∧
      ∀ a, st.Hangs reply a → KeptAt st s1.store a := by
  cases conn with
  | inProcess ffiCall =>
    obtain ⟨s2, stA, field, hanswered⟩ := answered (E := E) s hs hreq htyped hconn
    obtain ⟨st', hrequest, hrec, hkept⟩ := hanswered.received hreq
    cases hrequest.symm.trans hok
    exact ⟨hrec, s2.store, .inProcess hanswered.job, hanswered.replied.sane, hkept⟩
  | tcp n exchange =>
    obtain ⟨st1, send, st2, hsend, -, hfree, h2, hnone | ⟨d, hd, harr, hrep⟩⟩ := tcpRequestor_spec
      hconn hreq.sane.muted hreq.outer.struct (Sane.loud_of_untracked hreq.loose) hok
    · exact absurd hnone.1 h0
    · obtain ⟨server, A, S, hwritten⟩ := hconn st2 send d hd
      exact ⟨harr.received h2, s1.store, .tcp hsend hfree hd hwritten (hwritten.copied hrep),
        harr.later.muted.sane, fun a _ => keptAt_of_eq rfl⟩

theorem Asked.later {ID : CStr} {params : Addr} (h : Asked st ID request params st') (hst : Sane st) :
    Later st.silent ∅ st st' := by
  have hlive : ∀ a o, st.heap.lookup a = some o → a ∉ ({request, params} : Set Addr) := by
    intro a o ho hc
    rw [h.new a hc] at ho
    cases ho
  have hparams : st.heap.lookup params = none := h.new params (Set.mem_insert_of_mem _ rfl)
  have hown : ∀ S ∈ ({request, params} : Set Addr), ∀ k p, st'.held S k = some p → p = params := by
    intro S hS k p hh
    rcases hS with rfl | rfl
    · obtain ⟨f, hf, ht⟩ := h.outer.held hh
      simp only [List.mem_cons, List.not_mem_nil, or_false] at hf
      rcases hf with rfl | rfl
      · cases ht
        rfl
      · cases ht
    · obtain ⟨f, hf, ht⟩ := h.inner.held hh
      rw [List.mem_singleton.1 hf] at ht
      cases ht
  have hold : ∀ S k p, st.held S k = some p → st'.held S k = some p := by
    intro S k p hh
    obtain ⟨o, ho⟩ := live_of_held hh
    exact (held_congr (h.heap S (hlive S o ho)) k).trans hh
  have hsilent : st'.silent = st.silent := by
    ext p
    by_cases hp : p = params
    · rw [hp]
      exact iff_of_false h.sole.loud (Sane.loud_of_untracked (hst.dead_untracked hparams))
    · rw [mem_silent, mem_silent, h.tracker p hp]
  refine ⟨hsilent ▸ h.sane.muted, fun a o _ ho => keptAt_of_eq (h.heap a (hlive a o ho)) o ho,
    fun a o ho => ⟨o, (h.heap a (hlive a o ho)).trans ho, rfl⟩, fun S k p hh => ⟨hold S k p hh, ?_⟩,
    fun S k p hh => ?_⟩
  · obtain ⟨o, ho⟩ := hst.inv.held_live hh
    have hne : p ≠ params := by
      intro hc
      rw [hc, hparams] at ho
      cases ho
    refine Nat.le_of_eq (surplus_congr (fun S' k' => ⟨fun hh' => ?_, hold S' k' p⟩)
      (h.tracker p hne)).symm
    by_cases hS : S' ∈ ({request, params} : Set Addr)
    · exact absurd (hown S' hS k' p hh') hne
    · rwa [held_congr (h.heap S' hS)] at hh'
  · by_cases hS : S ∈ ({request, params} : Set Addr)
    · exact .inr (hown S hS k p hh ▸ hparams)
    · rw [held_congr (h.heap S hS)] at hh
      exact .inl hh

theorem Intact.later (h : Intact st st') (hst : Sane st) : Later st.silent ∅ st st' := by
  have hheld : ∀ S k, st'.held S k = st.held S k := by
    intro S k
    cases ho : st.heap.lookup S with
    | none => exact held_congr ((h.dead S ho).trans ho.symm) k
    | some o =>
      obtain ⟨o', ho', hl⟩ := h.kept S o ho
      rw [State.held, State.held, hl.entry ho ho']
  have hsilent : st'.silent = st.silent := Finset.ext fun p => Sane.silent_same (h.record p)
  refine ⟨hsilent ▸ h.sane.muted, fun a o _ ho => h.kept a o ho, fun a o ho => (h.kept a).type ho,
    fun S k p hh => ⟨(hheld S k).trans hh, ?_⟩, fun S k p hh => .inl ((hheld S k).symm.trans hh)⟩
  exact Nat.le_of_eq (hst.surplus_same h.sane (h.record p)).symm

/-- A question to the server. -/
theorem isObject_later {ID : CStr} {found : Bool} (hst : Sane s.store)
    (hconn : conn.Sound r0 udata proto args)
    (hok : isObject E (conn.methodRequest E utf8) s ID = .ok (s', found)) :
    Later s.store.silent ∅ s.store s'.store := by
  cases conn with
  | inProcess ffiCall =>
    obtain ⟨s1, found', hask, hintact⟩ := @isObject_intact E ffiCall s hst ID
    cases hask.symm.trans hok
    exact hintact.later hst
  | tcp n exchange =>
    obtain ⟨st5, request, params, h5, hiff⟩ := @asked E s hst ID
    obtain ⟨s6, reply, hrequest, hreply⟩ := (hiff _ s' found).1 hok
    have hlater := h5.later hst
    have hdead : s.store.heap.lookup request = none := h5.new request (Set.mem_insert _ _)
    obtain ⟨st1, send, st2, -, h1, hfree, h2, hcases⟩ := tcpRequestor_spec hconn hlater.muted
      h5.outer.struct (hst.muted.dead hdead) hrequest
    -- the request is gone
    obtain ⟨r, hr⟩ := h5.outer.struct
    obtain ⟨r1, hr1⟩ := h1.struct hr
    have hlater2 := (hlater.trans h1).free hst.muted hdead hr1 hfree
    rcases hcases with ⟨h0, hst6⟩ | ⟨d, -, harr, -⟩
    · rcases hreply with ⟨-, rfl, -⟩ | ⟨hne, -⟩
      · rw [hst6]
        exact hlater2
      · exact absurd h0 hne
    · have hlater6 := hlater2.trans harr.later
      rcases hreply with ⟨-, rfl, -⟩ | ⟨-, raw, st7, -, hfree7, rfl, -⟩
      · exact hlater6
      · obtain ⟨r6, hr6⟩ := harr.struct
        exact hlater6.free hst.muted (hlater2.dead harr.dead) hr6 hfree7

end

end FfiRpc
