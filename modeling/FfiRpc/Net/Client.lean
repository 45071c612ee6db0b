import FfiRpc.Core.LTS
import FfiRpc.Core.Table

/-!
# The clients' sockets

Any number of TCP clients in one process (rpc_client.c:45-167): their threads
call `tcp_requestor`, each connection has a ping thread, `tcp_disconnect` closes.
The lock of a connection is held from a request's `send` to its end; what a
thread does while it holds the lock are separate steps, so that the other clients
and the kernel can act in between. The kernel gives a new socket any number that
is not open. `error_handler` is never set, so nothing runs between a failed
`recv` and the `close`.

Each `send`, `recv`, `shutdown` and `close` is recorded with the client whose
connection it is made for and the client that opened the descriptor it is made
on. `ops_own`: the two are the same in every run in which no request and no
`tcp_disconnect` comes after a request on the connection got no reply, or after a
`tcp_disconnect`. `ping_intrudes` is the run of a failed request, whose socket
number the next client gets and the ping thread goes on using.
-/
namespace FfiRpc.Client

abbrev Fd := Nat
abbrev ClientId := Nat
abbrev TcpId := Nat

/-- The next thing the request that holds the lock does. -/
inductive Pc where
  | send | recv | close
  deriving DecidableEq

/-- The ping thread: in `sleep`, past the loop condition, in its request, over. -/
inductive PingPc where
  | sleeping | checked | requesting | ended
  deriving DecidableEq

/-- `tcp_userdata`; `fd` is `none` for -1. `busy`: the request that holds the
lock, with the connection whose ping thread makes it, if one does. Ghost: the
client, and whether a request got no reply or the client was disconnected
(`lost`). -/
structure Tcp where
  client : ClientId
  fd : Option Fd
  busy : Option (Pc × Option TcpId)
  ping : PingPc
  lost : Bool
  deriving DecidableEq

inductive OpKind where
  | send | recv | shutdown | close
  deriving DecidableEq

/-- A system call: made for which client, on which descriptor, and who opened
what the descriptor refers to. -/
structure Op where
  kind : OpKind
  client : ClientId
  fd : Option Fd
  hit : Option ClientId
  deriving DecidableEq

/-- `files`: the open sockets and the clients that opened them. `current`:
`connection_userdata` of each client. -/
structure State where
  files : Table Fd ClientId
  tcps : List Tcp
  current : Table ClientId TcpId
  ops : List Op

def init : State := ⟨∅, [], ∅, []⟩

def State.tcp (s : State) (t : TcpId) : Option Tcp := s.tcps[t]?

def State.update (s : State) (t : TcpId) (f : Tcp → Tcp) : State :=
  { s with tcps := s.tcps.modify t f }

def State.hit (s : State) (tcp : Tcp) : Option ClientId := tcp.fd.bind fun fd => s.files.lookup fd

def State.op (s : State) (kind : OpKind) (tcp : Tcp) : State :=
  { s with ops := s.ops ++ [⟨kind, tcp.client, tcp.fd, s.hit tcp⟩] }

/-- `shutdown` and `close` -/
def closeFd (s : State) (tcp : Tcp) : State :=
  let s := (s.op .shutdown tcp).op .close tcp
  match tcp.fd with
  | some fd => { s with files := s.files.erase fd }
  | none => s

/-- The request of connection `t` is over: `pthread_mutex_unlock`. -/
def finish (s : State) (t : TcpId) (ping : Option TcpId) : State :=
  let s := s.update t ({ · with busy := none })
  match ping with
  | some p => s.update p ({ · with ping := .sleeping })
  | none => s

/-- The connection a client's calls go through. -/
def State.using (s : State) (c : ClientId) : Option (TcpId × Tcp) :=
  (s.current.lookup c).bind fun t => (s.tcp t).map fun tcp => (t, tcp)

inductive Act where
  /-- `socket` returns `fd`, and `connect` succeeds or not -/
  | connect (c : ClientId) (fd : Fd) (ok : Bool)
  /-- a thread's `tcp_requestor` gets the lock -/
  | call (c : ClientId)
  /-- the loop condition of `tcp_ping` -/
  | pingCheck (t : TcpId)
  /-- the ping thread's `tcp_requestor` gets the lock -/
  | pingCall (t : TcpId)
  | send (t : TcpId) (ok : Bool)
  /-- `ok`: a reply is received -/
  | recv (t : TcpId) (ok : Bool)
  | close (t : TcpId)
  | disconnect (c : ClientId)

def step (s : State) : Act → Option State
  | .connect c fd ok =>
    if s.files.lookup fd ≠ none then none
    -- `sockfd > 0`: socket 0 is left open and not used
    else if fd = 0 then some { s with files := s.files.insert fd c }
    else if !ok then some s
    else some { s with
      files := s.files.insert fd c
      tcps := s.tcps ++ [⟨c, some fd, none, .sleeping, false⟩]
      current := s.current.insert c s.tcps.length }
  | .call c =>
    match s.using c with
    | some (t, tcp) =>
      if tcp.busy = none then some (s.update t ({ · with busy := some (.send, none) })) else none
    | none => none
  | .pingCheck t =>
    match s.tcp t with
    | some tcp =>
      if tcp.ping = .sleeping then
        some (s.update t ({ · with ping := if tcp.fd = none then .ended else .checked }))
      else none
    | none => none
  | .pingCall p =>
    match s.tcp p with
    | some ping =>
      match s.using ping.client with
      | some (t, tcp) =>
        if ping.ping = .checked ∧ tcp.busy = none then
          some ((s.update t ({ · with busy := some (.send, some p) })).update p
            ({ · with ping := .requesting }))
        else none
      | none => none
    | none => none
  | .send t ok =>
    match s.tcp t with
    | some tcp =>
      match tcp.busy with
      | some (.send, p) =>
        if ok then
          if s.hit tcp = none then none
          else some ((s.op .send tcp).update t ({ · with busy := some (.recv, p) }))
        else some (finish (s.op .send tcp) t p)
      | _ => none
    | none => none
  | .recv t ok =>
    match s.tcp t with
    | some tcp =>
      match tcp.busy with
      | some (.recv, p) =>
        if ok then if s.hit tcp = none then none else some (finish (s.op .recv tcp) t p)
        else some ((s.op .recv tcp).update t ({ · with busy := some (.close, p), lost := true }))
      | _ => none
    | none => none
  | .close t =>
    match s.tcp t with
    | some tcp =>
      match tcp.busy with
      | some (.close, p) => some (finish (closeFd s tcp) t p)
      | _ => none
    | none => none
  | .disconnect c =>
    match s.using c with
    | some (t, tcp) =>
      if tcp.busy = none then
        some ((closeFd s tcp).update t ({ · with fd := none, lost := true }))
      else none
    | none => none

def tcpClients : LTS State Act := .ofFn (· = init) step

/-- No request and no `tcp_disconnect` gets the lock of a connection that is
lost. -/
def Live (s : State) : Act → Bool
  | .call c | .disconnect c => (s.using c).all fun u => !u.2.lost
  | .pingCall p => (s.tcp p).all fun ping => (s.using ping.client).all fun u => !u.2.lost
  | _ => true

/-! ## The invariant -/

/-- The connection's descriptor is open and its own. -/
def Tcp.holds (tcp : Tcp) : Prop := tcp.lost = false ∨ ∃ p, tcp.busy = some (.close, p)

structure Owned (s : State) : Prop where
  current : ∀ c t, s.current.lookup c = some t → ∃ tcp, s.tcp t = some tcp ∧ tcp.client = c
  held : ∀ t tcp, s.tcp t = some tcp → tcp.holds →
    ∃ fd, tcp.fd = some fd ∧ s.files.lookup fd = some tcp.client
  distinct : ∀ t u a b, s.tcp t = some a → s.tcp u = some b → a.holds → b.holds →
    a.fd = b.fd → t = u
  calm : ∀ t tcp, s.tcp t = some tcp → ∀ pc p, tcp.busy = some (pc, p) →
    tcp.lost = decide (pc = .close)
  ops : ∀ op ∈ s.ops, op.hit = some op.client

theorem init_owned : Owned init where
  current c t h := by cases h
  held t tcp h := by cases h
  distinct t u a b h := by cases h
  calm t tcp h := by cases h
  ops op h := by cases h

variable {s s' : State}

theorem tcp_update {t u : TcpId} {f : Tcp → Tcp} {b : Tcp} (h : (s.update t f).tcp u = some b) :
    ∃ a, s.tcp u = some a ∧ (b = a ∧ t ≠ u ∨ b = f a ∧ t = u) := by
  rw [State.tcp, State.update, List.getElem?_modify] at h
  obtain ⟨a, ha, hb⟩ := Option.map_eq_some_iff.1 h
  refine ⟨a, ha, ?_⟩
  split at hb
  · rename_i htu
    exact .inr ⟨hb.symm, htu⟩
  · rename_i htu
    exact .inl ⟨hb.symm, htu⟩

theorem using_eq_some {c : ClientId} {t : TcpId} {tcp : Tcp} :
    s.using c = some (t, tcp) ↔ s.current.lookup c = some t ∧ s.tcp t = some tcp := by
  simp only [State.using, Option.bind_eq_some_iff, Option.map_eq_some_iff, Prod.mk.injEq]
  constructor
  · intro h
    obtain ⟨_, hc, _, ht, rfl, rfl⟩ := h
    exact ⟨hc, ht⟩
  · intro h
    exact ⟨t, h.1, tcp, h.2, rfl, rfl⟩

theorem tcp_update_of {t u : TcpId} {f : Tcp → Tcp} {a : Tcp} (h : s.tcp u = some a) :
    (s.update t f).tcp u = some (if t = u then f a else a) := by
  rw [State.tcp, State.update, List.getElem?_modify, show s.tcps[u]? = some a from h]
  split <;> rfl

theorem client_update {t : TcpId} {f : Tcp → Tcp} (hclient : ∀ a, (f a).client = a.client)
    {c : ClientId} {u : TcpId} (h : ∃ tcp, s.tcp u = some tcp ∧ tcp.client = c) :
    ∃ tcp, (s.update t f).tcp u = some tcp ∧ tcp.client = c := by
  obtain ⟨a, ha, hc⟩ := h
  refine ⟨_, tcp_update_of ha, ?_⟩
  split
  · rw [hclient, hc]
  · exact hc

/-- A change of one connection that gives it no descriptor. -/
theorem Owned.update (h : Owned s) {t : TcpId} {f : Tcp → Tcp}
    (hclient : ∀ a, (f a).client = a.client) (hfd : ∀ a, (f a).fd = a.fd)
    (hholds : ∀ a, s.tcp t = some a → (f a).holds → a.holds)
    (hcalm : ∀ a, s.tcp t = some a → ∀ pc p, (f a).busy = some (pc, p) →
      (f a).lost = decide (pc = .close)) : Owned (s.update t f) := by
  have hold : ∀ u b, (s.update t f).tcp u = some b → ∃ a, s.tcp u = some a ∧
      b.client = a.client ∧ b.fd = a.fd ∧ (b.holds → a.holds) := by
    intro u b hb
    obtain ⟨a, ha, ⟨rfl, -⟩ | ⟨rfl, rfl⟩⟩ := tcp_update hb
    · exact ⟨b, ha, rfl, rfl, id⟩
    · exact ⟨a, ha, hclient a, hfd a, hholds a ha⟩
  constructor
  · exact fun c u hu => client_update hclient (h.current c u hu)
  · intro u b hb hbh
    obtain ⟨a, ha, hc, hf, hh⟩ := hold u b hb
    rw [hc, hf]
    exact h.held u a ha (hh hbh)
  · intro u v b b' hb hb' hbh hbh' he
    obtain ⟨a, ha, -, hf, hh⟩ := hold u b hb
    obtain ⟨a', ha', -, hf', hh'⟩ := hold v b' hb'
    exact h.distinct u v a a' ha ha' (hh hbh) (hh' hbh') (by rw [← hf, ← hf', he])
  · intro u b hb pc p hbusy
    obtain ⟨a, ha, ⟨rfl, -⟩ | ⟨rfl, rfl⟩⟩ := tcp_update hb
    · exact h.calm u b ha pc p hbusy
    · exact hcalm a ha pc p hbusy
  · exact h.ops

theorem Owned.ping (h : Owned s) (p : TcpId) (f : Tcp → PingPc) :
    Owned (s.update p fun a => { a with ping := f a }) :=
  h.update (fun _ => rfl) (fun _ => rfl) (fun _ _ hh => hh) fun a ha pc q hb => h.calm _ a ha pc q hb

/-- A request moves on, on a connection that is not lost. -/
theorem Owned.request (h : Owned s) {t : TcpId} {tcp : Tcp} (ht : s.tcp t = some tcp)
    (hlost : tcp.lost = false) (pc : Pc) (hpc : pc ≠ .close) (p : Option TcpId) :
    Owned (s.update t ({ · with busy := some (pc, p) })) := by
  refine h.update (fun _ => rfl) (fun _ => rfl) (fun a ha _ => ?_) fun a ha pc' q hb => ?_
  · rw [ht] at ha
    cases ha
    exact .inl hlost
  · rw [ht] at ha
    cases ha
    cases hb
    exact hlost.trans (decide_eq_false hpc).symm

/-- The last steps of a request, once the connection is unlocked. -/
theorem Owned.finish {t : TcpId} (h : Owned (s.update t ({ · with busy := none })))
    (p : Option TcpId) : Owned (finish s t p) := by
  cases p with
  | none => exact h
  | some p => exact h.ping p fun _ => .sleeping

theorem Owned.unlock (h : Owned s) (t : TcpId) : Owned (s.update t ({ · with busy := none })) := by
  refine h.update (fun _ => rfl) (fun _ => rfl) (fun a _ hh => ?_) nofun
  rcases hh with hl | hb
  · exact .inl hl
  · obtain ⟨p, hb⟩ := hb
    cases hb

/-- A system call on a descriptor that is held. -/
theorem Owned.op (h : Owned s) {t : TcpId} {tcp : Tcp} (ht : s.tcp t = some tcp)
    (hh : tcp.holds) (kind : OpKind) : Owned (s.op kind tcp) := by
  obtain ⟨fd, hfd, hopen⟩ := h.held t tcp ht hh
  refine { h with ops := fun op hop => ?_ }
  rcases List.mem_append.1 hop with hop | hop
  · exact h.ops op hop
  · rw [List.mem_singleton.1 hop]
    simp [State.hit, hfd, hopen]

/-- `shutdown` and `close` of a held descriptor, on a connection that gives it
up. -/
theorem Owned.close (h : Owned s) {t : TcpId} {tcp : Tcp} (ht : s.tcp t = some tcp)
    (hh : tcp.holds) {f : Tcp → Tcp} (hclient : ∀ a, (f a).client = a.client)
    (hf : ¬ (f tcp).holds) (hcalm : (f tcp).busy = none) :
    Owned ((closeFd s tcp).update t f) := by
  obtain ⟨fd, hfd, hopen⟩ := h.held t tcp ht hh
  have hops := (h.op ht hh .shutdown).op (show (s.op .shutdown tcp).tcp t = _ from ht) hh .close
  have hstate : closeFd s tcp =
      { (s.op .shutdown tcp).op .close tcp with files := s.files.erase fd } := by
    simp only [closeFd, hfd]
    rfl
  rw [hstate]
  -- the connections that still hold a descriptor held another one before
  have hold : ∀ u b, ((s.update t f).tcp u = some b) → b.holds → s.tcp u = some b ∧ t ≠ u := by
    intro u b hb hbh
    obtain ⟨a, ha, ⟨rfl, hne⟩ | ⟨rfl, rfl⟩⟩ := tcp_update hb
    · exact ⟨ha, hne⟩
    · rw [ht] at ha
      cases ha
      exact absurd hbh hf
  constructor
  · exact fun c u hu => client_update (s := s) hclient (h.current c u hu)
  · intro u b hb hbh
    obtain ⟨hb, hne⟩ := hold u b hb hbh
    obtain ⟨fd', hfd', hopen'⟩ := h.held u b hb hbh
    refine ⟨fd', hfd', (AList.lookup_erase_ne fun he => hne ?_).trans hopen'⟩
    exact h.distinct t u tcp b ht hb hh hbh (by rw [hfd, hfd', he])
  · intro u v a b ha hb hah hbh he
    exact h.distinct u v a b (hold u a ha hah).1 (hold v b hb hbh).1 hah hbh he
  · intro u b hb pc p hbusy
    obtain ⟨a, ha, ⟨rfl, -⟩ | ⟨rfl, rfl⟩⟩ := tcp_update (s := s) hb
    · exact h.calm u b ha pc p hbusy
    · rw [show s.tcp t = some a from ha] at ht
      cases ht
      rw [hcalm] at hbusy; cases hbusy
  · exact hops.ops

/-- A new socket, whether a connection is made of it or not. -/
theorem Owned.socket (h : Owned s) {c : ClientId} {fd : Fd} (hfree : s.files.lookup fd = none) :
    Owned { s with files := s.files.insert fd c } := by
  refine { h with held := fun t tcp ht hh => ?_ }
  obtain ⟨fd', hfd', hopen⟩ := h.held t tcp ht hh
  refine ⟨fd', hfd', (AList.lookup_insert_ne fun he => ?_).trans hopen⟩
  rw [he, hfree] at hopen; cases hopen

theorem Owned.connect (h : Owned s) {c : ClientId} {fd : Fd} (hfree : s.files.lookup fd = none) :
    Owned { s with
      files := s.files.insert fd c
      tcps := s.tcps ++ [⟨c, some fd, none, .sleeping, false⟩]
      current := s.current.insert c s.tcps.length } := by
  have hold : ∀ t tcp, (s.tcps ++ [⟨c, some fd, none, .sleeping, false⟩])[t]? = some tcp →
      s.tcp t = some tcp ∨ t = s.tcps.length ∧ tcp = ⟨c, some fd, none, .sleeping, false⟩ := by
    intro t tcp ht
    rw [List.getElem?_append] at ht
    split at ht
    · exact .inl ht
    · rename_i hge
      rw [List.getElem?_singleton] at ht
      split at ht
      · rename_i hz
        cases ht
        exact .inr ⟨Nat.le_antisymm (Nat.sub_eq_zero_iff_le.1 hz) (Nat.le_of_not_lt hge), rfl⟩
      · cases ht
  have hsocket := h.socket (c := c) hfree
  have hused : ∀ t tcp, s.tcp t = some tcp → tcp.holds → tcp.fd ≠ some fd := by
    intro t tcp ht hh he
    obtain ⟨fd', hfd', hopen⟩ := h.held t tcp ht hh
    rw [he] at hfd'
    cases hfd'
    rw [hfree] at hopen; cases hopen
  constructor
  · intro c' t hc
    rw [Table.lookup_insert_if] at hc
    split at hc
    · rename_i he
      cases hc
      exact ⟨_, List.getElem?_concat_length, he.symm⟩
    · obtain ⟨tcp, ht, hcl⟩ := h.current c' t hc
      exact ⟨tcp, (List.getElem?_append_left (List.getElem?_eq_some_iff.1 ht).1).trans ht, hcl⟩
  · intro t tcp ht hh
    rcases hold t tcp ht with ht | ⟨-, rfl⟩
    · exact hsocket.held t tcp ht hh
    · exact ⟨fd, rfl, AList.lookup_insert _⟩
  · intro t u a b ha hb hah hbh he
    rcases hold t a ha with ha | ⟨rfl, rfl⟩
    · rcases hold u b hb with hb | ⟨rfl, rfl⟩
      · exact h.distinct t u a b ha hb hah hbh he
      · exact absurd he (hused t a ha hah)
    · rcases hold u b hb with hb | ⟨rfl, rfl⟩
      · exact absurd he.symm (hused u b hb hbh)
      · rfl
  · intro t tcp ht pc p hb
    rcases hold t tcp ht with ht | ⟨-, rfl⟩
    · exact h.calm t tcp ht pc p hb
    · cases hb
  · exact h.ops

/-! ## Steps -/

/-- One step of a run in which lost connections are left alone. -/
theorem step_owned {a : Act} (h : Owned s) (hs : step s a = some s') (hlive : Live s a = true) :
    Owned s' := by
  cases a with
  | connect c fd ok =>
    simp only [step] at hs
    split at hs
    · cases hs
    · rename_i hfree
      rw [not_not] at hfree
      split at hs
      · cases hs
        exact h.socket hfree
      · split at hs
        · cases hs
          exact h
        · cases hs
          exact h.connect hfree
  | call c =>
    simp only [step] at hs
    split at hs
    · rename_i t tcp hu
      split at hs
      · cases hs
        have hlost : tcp.lost = false := by simpa [Live, hu] using hlive
        exact h.request (using_eq_some.1 hu).2 hlost .send nofun none
      · cases hs
    · cases hs
  | pingCheck t =>
    simp only [step] at hs
    split at hs
    · rename_i tcp ht
      split at hs
      · cases hs
        exact h.ping t fun _ => if tcp.fd = none then .ended else .checked
      · cases hs
    · cases hs
  | pingCall p =>
    simp only [step] at hs
    split at hs
    · rename_i ping hp
      split at hs
      · rename_i t tcp hu
        split at hs
        · cases hs
          have hlost : tcp.lost = false := by simpa [Live, hp, hu] using hlive
          exact (h.request (using_eq_some.1 hu).2 hlost .send nofun (some p)).ping p fun _ => .requesting
        · cases hs
      · cases hs
    · cases hs
  | send t ok =>
    simp only [step] at hs
    split at hs
    · rename_i tcp ht
      split at hs
      · rename_i p hbusy
        have hlost : tcp.lost = false := h.calm t tcp ht .send p hbusy
        have hop := h.op ht (.inl hlost) .send
        split at hs
        · split at hs
          · cases hs
          · cases hs
            exact hop.request ht hlost .recv nofun p
        · cases hs
          exact (hop.unlock t).finish p
      · cases hs
    · cases hs
  | recv t ok =>
    simp only [step] at hs
    split at hs
    · rename_i tcp ht
      split at hs
      · rename_i p hbusy
        have hlost : tcp.lost = false := h.calm t tcp ht .recv p hbusy
        have hop := h.op ht (.inl hlost) .recv
        split at hs
        · split at hs
          · cases hs
          · cases hs
            exact (hop.unlock t).finish p
        · cases hs
          refine hop.update (fun _ => rfl) (fun _ => rfl) (fun a ha _ => ?_) fun a ha pc q hb => ?_
          · rw [show s.tcp t = some a from ha] at ht
            cases ht
            exact .inl hlost
          · cases hb
            rfl
      · cases hs
    · cases hs
  | close t =>
    simp only [step] at hs
    split at hs
    · rename_i tcp ht
      split at hs
      · rename_i p hbusy
        cases hs
        have hlost : tcp.lost = true := h.calm t tcp ht .close p hbusy
        have hclosed : Owned ((closeFd s tcp).update t ({ · with busy := none })) := by
          refine h.close ht (.inr ⟨p, hbusy⟩) (fun _ => rfl) (fun hh => ?_) rfl
          rcases hh with hh | hh
          · exact Bool.false_ne_true (hh.symm.trans hlost)
          · obtain ⟨q, hq⟩ := hh
            cases hq
        exact hclosed.finish p
      · cases hs
    · cases hs
  | disconnect c =>
    simp only [step] at hs
    split at hs
    · rename_i t tcp hu
      split at hs
      · rename_i hbusy
        cases hs
        have hlost : tcp.lost = false := by simpa [Live, hu] using hlive
        refine h.close (using_eq_some.1 hu).2 (.inl hlost) (fun _ => rfl) (fun hh => ?_) hbusy
        rcases hh with hh | hh
        · cases hh
        · obtain ⟨q, hq⟩ := hh
          rw [show tcp.busy = _ from hq] at hbusy; cases hbusy
      · cases hs
    · cases hs

/-- Every system call is on a descriptor that the client opened and has not
closed. -/
theorem ops_own (h : (tcpClients.restrict fun s a => Live s a).Reachable s) :
    ∀ op ∈ s.ops, op.hit = some op.client := by
  refine (h.invariant (I := Owned) (fun s h0 => ?_) fun s a s' hi hs => ?_).ops
  · rw [show s = init from h0]
    exact init_owned
  · exact step_owned hi hs.1 hs.2

/-- A client that connects, calls and disconnects, and another that gets its
number. -/
theorem ops_own_two : ∃ s, (tcpClients.restrict fun s a => Live s a).Reachable s ∧
    s.ops.length = 5 ∧ ∀ op ∈ s.ops, op.hit = some op.client := by
  obtain ⟨s, hs, hlen⟩ : ∃ s, LTS.exec step Live init [.connect 0 5 true, .call 0, .send 0 true,
      .recv 0 true, .disconnect 0, .connect 1 5 true, .call 1, .send 1 true] = some s ∧
      s.ops.length = 5 := ⟨_, rfl, rfl⟩
  have h : (tcpClients.restrict fun s a => Live s a).Reachable s := .exec (.init rfl) hs
  exact ⟨s, h, hlen, ops_own h⟩

/-- A request gets no reply and its socket is closed, the next client's socket
gets the number, and the first client's ping thread writes its request into it. -/
theorem ping_intrudes : ∃ s, tcpClients.Reachable s ∧ ⟨.send, 0, some 5, some 1⟩ ∈ s.ops := by
  obtain ⟨s, hs, hop⟩ : ∃ s, LTS.exec step (fun _ _ => true) init [.connect 0 5 true, .call 0,
      .send 0 true, .recv 0 false, .close 0, .connect 1 5 true, .pingCheck 0, .pingCall 0,
      .send 0 true] = some s ∧ s.ops.getLast? = some ⟨.send, 0, some 5, some 1⟩ := ⟨_, rfl, rfl⟩
  exact ⟨s, .of_restrict (.exec (.init rfl) hs), List.mem_of_getLast? hop⟩

end FfiRpc.Client
