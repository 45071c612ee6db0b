import FfiRpc.Core.Fallible
import FfiRpc.Core.LTS
import FfiRpc.Core.Table
import FfiRpc.Net.Tables

/-!
# The poll table

`poll_network.c` by itself: the array of `struct pollfd` with its count `nfds`,
the loop of the poll thread over it (lines 89-106), `poll_net_add_fd` (134-156)
and the accept thread (57-79).

* `nfds_t` is unsigned, so the index of the loop wraps when the entry at 0 is
  removed.
* An index outside the array is an error (`Stop.outOfRange`), and the loop takes a
  bound on its iterations (`Stop.outOfFuel`).
* The callbacks do not touch the table; what they are called with is recorded, in
  order, with the calls of `shutdown` and `close`.

The array itself is that of the connection model: it grows by `growFds`, and the loop's
`memmove` is the `removeAt` made there (`removeEntry_eq`).

Ghost data: the connection an entry was added for.
-/
namespace FfiRpc.PollTable

def POLLIN : UInt16 := 0x1
def POLLERR : UInt16 := 0x8
def POLLHUP : UInt16 := 0x10
def POLLNVAL : UInt16 := 0x20
def POLLRDHUP : UInt16 := 0x2000

/-- `struct pollfd` -/
structure PollFd where
  fd : Fd
  events : UInt16
  revents : UInt16
  conn : Conn
  deriving DecidableEq

/-- The test of poll_network.c:96. -/
def PollFd.gone (e : PollFd) : Bool :=
  e.revents &&& POLLHUP != 0 || e.revents &&& POLLERR != 0 ||
    e.revents &&& POLLNVAL != 0 || e.revents &&& POLLRDHUP != 0

/-- The test of poll_network.c:90. -/
def PollFd.readable (e : PollFd) : Bool := e.revents &&& POLLIN != 0

/-- `struct poll_net`; `fds` is the allocated array, of `fds_size` elements. -/
structure PollNet where
  active : Bool
  fds : List PollFd
  nfds : UInt64
  deriving DecidableEq

/-- The entries given to `poll`. -/
def PollNet.polled (net : PollNet) : List PollFd := net.fds.take net.nfds.toNat

/-- The callbacks that are set. -/
structure Callbacks where
  readCb : Bool
  disconnectCb : Bool
  deriving DecidableEq

inductive Call where
  | readCb (fd : Fd)
  | disconnectCb (fd : Fd)
  | shutdown (fd : Fd)
  | close (fd : Fd)
  deriving DecidableEq

inductive Stop where
  | outOfRange
  | outOfFuel
  deriving DecidableEq

/-! ## One scan of the poll thread -/

/-- `memmove(&fds[dst], &fds[src], n * sizeof(*fds))` -/
def memmove (fds : List PollFd) (dst src n : Nat) : Except Stop (List PollFd) :=
  if src + n ≤ fds.length ∧ dst + n ≤ fds.length then
    .ok (fds.take dst ++ (fds.drop src).take n ++ fds.drop (dst + n))
  else .error .outOfRange

/-- The calls made for an entry that is gone. -/
def disconnectCalls (cbs : Callbacks) (fd : Fd) : List Call :=
  (if cbs.disconnectCb then [.disconnectCb fd] else []) ++ [.shutdown fd, .close fd]

/-- `memmove` and `nfds--`, poll_network.c:103-104 -/
def removeEntry (net : PollNet) (i : UInt64) : Except Stop PollNet := do
  let fds ← memmove net.fds i.toNat (i + 1).toNat (net.nfds - (i + 1)).toNat
  return { net with fds := fds, nfds := net.nfds - 1 }

/-- The loop from index `i`, poll_network.c:89-106. After a removal the index goes
down by one and then, by the loop's step, up again. -/
def scanFrom (cbs : Callbacks) : Nat → UInt64 → PollNet → List Call →
    Except Stop (PollNet × List Call)
  | 0, _, _, _ => .error .outOfFuel
  | fuel + 1, i, net, calls =>
    if i < net.nfds then
      match net.fds[i.toNat]? with
      | none => .error .outOfRange
      | some e =>
        let calls := if e.readable && cbs.readCb then calls ++ [.readCb e.fd] else calls
        if e.gone then do
          let calls := calls ++ disconnectCalls cbs e.fd
          let net ← removeEntry net i
          scanFrom cbs fuel (i - 1 + 1) net calls
        else scanFrom cbs fuel (i + 1) net calls
    else .ok (net, calls)

def scan (cbs : Callbacks) (fuel : Nat) (net : PollNet) : Except Stop (PollNet × List Call) :=
  scanFrom cbs fuel 0 net []

/-- What a scan does for one entry. -/
def entryCalls (cbs : Callbacks) (e : PollFd) : List Call :=
  (if e.readable && cbs.readCb then [.readCb e.fd] else []) ++
    if e.gone then disconnectCalls cbs e.fd else []

/-- The `memmove` takes the entry out. -/
theorem memmove_removeAt {fds : List PollFd} {nfds i : Nat} (hi : i < nfds) (hn : nfds ≤ fds.length) :
    memmove fds i (i + 1) (nfds - (i + 1)) = .ok (removeAt fds nfds i) := by
  have hend : i + (nfds - (i + 1)) = nfds - 1 := by omega
  unfold memmove removeAt
  rw [if_pos (by omega), hend, List.eraseIdx_eq_take_drop_succ, List.take_take, List.drop_take,
    Nat.min_eq_left (by omega)]

theorem removeEntry_eq {net : PollNet} {i : UInt64} (hi : i.toNat < net.nfds.toNat)
    (hn : net.nfds.toNat ≤ net.fds.length) : removeEntry net i =
      .ok { net with fds := removeAt net.fds net.nfds.toNat i.toNat, nfds := net.nfds - 1 } := by
  have hlt := net.nfds.toNat_lt
  have hi1 : (i + 1).toNat = i.toNat + 1 := by
    rw [UInt64.toNat_add, UInt64.toNat_one]
    omega
  have hcount : (net.nfds - (i + 1)).toNat = net.nfds.toNat - (i.toNat + 1) := by
    rw [UInt64.toNat_sub_of_le _ _ (UInt64.le_iff_toNat_le.2 (by omega)), hi1]
  unfold removeEntry
  rw [hi1, hcount, memmove_removeAt hi hn]
  rfl

/-- The count after a removal. -/
theorem toNat_pred {n : UInt64} (h : 0 < n.toNat) : (n - 1).toNat = n.toNat - 1 := by
  rw [UInt64.toNat_sub_of_le _ _ (UInt64.le_iff_toNat_le.2 (by rw [UInt64.toNat_one]; omega)),
    UInt64.toNat_one]

theorem removeAt_middle {α : Type} (kept rest spare : List α) (e : α) :
    ∃ spare', removeAt (kept ++ e :: rest ++ spare) (kept.length + (rest.length + 1)) kept.length =
      kept ++ rest ++ spare' ∧ spare'.length = spare.length + 1 := by
  have htake : (kept ++ e :: rest ++ spare).take (kept.length + (rest.length + 1)) =
      kept ++ e :: rest := List.take_left' (by simp)
  refine ⟨(kept ++ e :: rest ++ spare).drop (kept.length + (rest.length + 1) - 1), ?_, ?_⟩
  · rw [removeAt, htake, eraseIdx_middle]
  · simp only [List.length_drop, List.length_append, List.length_cons]
    omega

/-- The loop with the entries `kept` behind its index and `rest` before it. -/
theorem scanFrom_spec (cbs : Callbacks) : ∀ (rest kept spare : List PollFd) (fuel : Nat)
    (i : UInt64) (net : PollNet) (calls : List Call), net.fds = kept ++ rest ++ spare →
    net.nfds.toNat = kept.length + rest.length → i.toNat = kept.length → rest.length < fuel →
    ∃ net', scanFrom cbs fuel i net calls = .ok (net', calls ++ rest.flatMap (entryCalls cbs)) ∧
      net'.polled = kept ++ rest.filter (!·.gone) ∧ net'.fds.length = net.fds.length ∧
      net'.active = net.active
  | [], kept, spare, fuel + 1, i, net, calls, hfds, hn, hi, _ => by
    have hdone : ¬ i < net.nfds := by
      rw [UInt64.lt_iff_toNat_lt, hn, hi]
      simp
    refine ⟨net, by simp [scanFrom, hdone], ?_, rfl, rfl⟩
    unfold PollNet.polled
    rw [hfds, hn]
    simp
  | e :: rest, kept, spare, fuel + 1, i, net, calls, hfds, hn, hi, hf => by
    rw [List.length_cons] at hn hf
    have hlt := net.nfds.toNat_lt
    have hmore : i < net.nfds := by
      rw [UInt64.lt_iff_toNat_lt]
      omega
    have hget : net.fds[i.toNat]? = some e := by
      rw [hfds, hi]
      simp
    unfold scanFrom
    rw [if_pos hmore, hget]
    by_cases hg : e.gone
    · obtain ⟨spare1, hfds1, hspare⟩ := removeAt_middle kept rest spare e
      have hrem := @removeEntry_eq net i (by omega) (by rw [hfds]; simp; omega)
      rw [hfds, hn, hi, hfds1] at hrem
      have hn1 := toNat_pred (n := net.nfds) (by omega)
      have hback : i - 1 + 1 = i := UInt64.sub_add_cancel i 1
      obtain ⟨net', hrun, hpolled, hlen, hact⟩ := scanFrom_spec cbs rest kept spare1 fuel
        (i - 1 + 1) { net with fds := kept ++ rest ++ spare1, nfds := net.nfds - 1 }
        ((if e.readable && cbs.readCb then calls ++ [.readCb e.fd] else calls) ++
          disconnectCalls cbs e.fd) rfl (by simp only; omega) (by rw [hback, hi]) (by omega)
      refine ⟨net', ?_, by simpa [hg] using hpolled, ?_, hact⟩
      · simp only [hg, if_true, hrem]
        rw [List.flatMap_cons, entryCalls, if_pos hg]
        change scanFrom cbs fuel (i - 1 + 1) _ _ = _
        rw [hrun]
        split <;> simp
      · rw [hlen, hfds]
        simp
        omega
    · have hnext : (i + 1).toNat = (kept ++ [e]).length := by
        rw [UInt64.toNat_add, UInt64.toNat_one, List.length_append, List.length_singleton]
        omega
      obtain ⟨net', hrun, hpolled, hlen, hact⟩ := scanFrom_spec cbs rest (kept ++ [e]) spare fuel
        (i + 1) net (if e.readable && cbs.readCb then calls ++ [.readCb e.fd] else calls)
        (by simp [hfds]) (by simp [hn]; omega) hnext (by omega)
      refine ⟨net', ?_, by simpa [hg] using hpolled, hlen, hact⟩
      simp only [hg, Bool.false_eq_true, if_false]
      rw [List.flatMap_cons, entryCalls, if_neg hg, hrun]
      split <;> simp

/-- One scan, whatever the table and the flags: every entry is visited once and
in order, read before it is disconnected; the entries that are gone are taken
out, the others stay as they were. -/
theorem scan_visits_once (cbs : Callbacks) (net : PollNet)
    (hsize : net.nfds.toNat ≤ net.fds.length) :
    ∀ fuel, net.nfds.toNat < fuel →
      ∃ net', scan cbs fuel net = .ok (net', net.polled.flatMap (entryCalls cbs)) ∧
        net'.polled = net.polled.filter (!·.gone) ∧ net'.fds.length = net.fds.length ∧
        net'.active = net.active := by
  intro fuel hf
  have hlen : net.polled.length = net.nfds.toNat := List.length_take_of_le hsize
  have hfds : net.fds = [] ++ net.polled ++ net.fds.drop net.nfds.toNat := by
    simp [PollNet.polled]
  obtain ⟨net', hrun, hrest⟩ := scanFrom_spec cbs net.polled [] _ fuel 0 net [] hfds
    (by simp [hlen]) rfl (by omega)
  exact ⟨net', hrun, hrest⟩

/-- The first two entries hang up, one of them with something to read: the index
wraps twice. -/
theorem scan_visits_once_wrapping :
    let net : PollNet := ⟨true, [⟨4, 1, 0x11, 0⟩, ⟨5, 1, 0x8, 1⟩, ⟨6, 1, 1, 2⟩], 3⟩
    (∀ fuel, 3 < fuel → ∃ net', scan ⟨true, true⟩ fuel net =
        .ok (net', [.readCb 4, .disconnectCb 4, .shutdown 4, .close 4,
          .disconnectCb 5, .shutdown 5, .close 5, .readCb 6]) ∧
      net'.polled = [⟨6, 1, 1, 2⟩] ∧ net'.fds.length = 3 ∧ net'.active = true) :=
  scan_visits_once ⟨true, true⟩ ⟨true, [⟨4, 1, 0x11, 0⟩, ⟨5, 1, 0x8, 1⟩, ⟨6, 1, 1, 2⟩], 3⟩
    (by decide)

/-! ## Adding a descriptor -/

/-- A call of `poll_net_add_fd` that is over: the table it leaves, its result and
the descriptors it shut down and closed. -/
structure Added where
  net : PollNet
  ret : Nat
  closed : List Fd
  deriving DecidableEq

/-- poll_network.c:139-142 -/
def grow (net : PollNet) : PollNet :=
  { net with fds := growFds ⟨0, 0, 0, 0⟩ net.fds net.nfds.toNat }

/-- What `poll_net_add_fd` writes for `fd`. -/
def entryFor (fd : Fd) (conn : Conn) : PollFd := ⟨fd, POLLIN ||| POLLRDHUP, 0, conn⟩

/-- poll_network.c:134-156 -/
def pollNetAddFd (net : PollNet) (fd : Fd) (conn : Conn) : Except Stop Added :=
  if net.active then
    let net := grow net
    match net.fds[net.nfds.toNat]? with
    | none => .error .outOfRange
    | some slot =>
      if net.nfds.toNat + 1 = RLIMIT_NOFILE then .ok ⟨net, 1, [slot.fd]⟩
      else
        .ok ⟨{ net with fds := net.fds.set net.nfds.toNat (entryFor fd conn),
                        nfds := net.nfds + 1 }, 0, []⟩
  else .ok ⟨net, 1, []⟩

/-- What a call owes its caller: the descriptor is the new last entry, or nothing
has changed and no other descriptor is closed. -/
def Added.Honest (net : PollNet) (fd : Fd) (conn : Conn) (a : Added) : Prop :=
  (a.ret = 0 ∧ net.nfds.toNat < a.net.fds.length ∧ a.net.nfds.toNat = net.nfds.toNat + 1 ∧
      a.net.polled = net.polled ++ [entryFor fd conn] ∧ a.closed = []) ∨
    (a.ret = 1 ∧ a.net.polled = net.polled ∧ a.net.nfds = net.nfds ∧ ∀ fd' ∈ a.closed, fd' = fd)

instance (net : PollNet) (fd : Fd) (conn : Conn) (a : Added) :
    Decidable (a.Honest net fd conn) := by
  unfold Added.Honest
  exact inferInstance

/-- Below the limit a call appends. -/
theorem pollNetAddFd_appends {net : PollNet} (fd : Fd) (conn : Conn) (hact : net.active = true)
    (hroom : net.nfds.toNat < net.fds.length) (hlimit : net.nfds.toNat + 1 ≠ RLIMIT_NOFILE)
    (hmax : net.nfds.toNat + 1 < 2 ^ 64) :
    ∃ a, pollNetAddFd net fd conn = .ok a ∧ a.ret = 0 ∧ a.closed = [] ∧
      a.net.nfds.toNat = net.nfds.toNat + 1 ∧ a.net.polled = net.polled ++ [entryFor fd conn] ∧
      net.fds.length ≤ a.net.fds.length ∧ net.nfds.toNat < a.net.fds.length ∧
      a.net.active = true := by
  have hlen := lt_length_growFds (⟨0, 0, 0, 0⟩ : PollFd) hroom
  have hinc : (net.nfds + 1).toNat = net.nfds.toNat + 1 := by
    rw [UInt64.toNat_add, UInt64.toNat_one]
    omega
  refine ⟨⟨{ grow net with
    fds := (grow net).fds.set net.nfds.toNat (entryFor fd conn), nfds := net.nfds + 1 }, 0, []⟩,
    ?_, rfl, rfl, hinc, ?_, ?_, ?_, hact⟩
  · unfold pollNetAddFd grow
    simp only [hact, if_true]
    rw [getElem?_growFds _ hroom, List.getElem?_eq_getElem hroom]
    simp only [if_neg hlimit]
  · change List.take (net.nfds + 1).toNat _ = _
    rw [hinc, grow, take_set_length hlen, take_growFds _ hroom]
    rfl
  · simpa [grow] using length_le_growFds (⟨0, 0, 0, 0⟩ : PollFd) net.fds net.nfds.toNat
  · simpa [grow] using hlen

/-- A call keeps its promise, except that a full table makes it close the
descriptor that the slot behind the last entry happens to hold. -/
theorem pollNetAddFd_honest_iff {net : PollNet} (fd : Fd) (conn : Conn)
    (hroom : net.nfds.toNat < net.fds.length) (hmax : net.nfds.toNat + 1 < 2 ^ 64) :
    ∃ a, pollNetAddFd net fd conn = .ok a ∧
      (a.Honest net fd conn ↔ ¬ (net.active = true ∧ net.nfds.toNat + 1 = RLIMIT_NOFILE ∧
        ∃ slot, net.fds[net.nfds.toNat]? = some slot ∧ slot.fd ≠ fd)) := by
  by_cases hact : net.active
  · by_cases hlimit : net.nfds.toNat + 1 = RLIMIT_NOFILE
    · refine ⟨⟨grow net, 1, [net.fds[net.nfds.toNat].fd]⟩, ?_, ?_⟩
      · unfold pollNetAddFd grow
        simp only [hact, if_true]
        rw [getElem?_growFds _ hroom, List.getElem?_eq_getElem hroom]
        simp only [if_pos hlimit]
      · have hsame : (grow net).polled = net.polled := take_growFds _ hroom
        have hcount : (grow net).nfds = net.nfds := rfl
        simp [Added.Honest, hact, hlimit, hsame, hcount, List.getElem?_eq_getElem hroom]
    · obtain ⟨a, ha, hret, hclosed, hn, hpolled, -, hlt, -⟩ :=
        pollNetAddFd_appends fd conn hact hroom hlimit hmax
      refine ⟨a, ha, fun _ => by simp [hlimit], fun _ => .inl ⟨hret, hlt, hn, hpolled, hclosed⟩⟩
  · refine ⟨⟨net, 1, []⟩, by simp [pollNetAddFd, hact], ?_⟩
    simp [Added.Honest, hact]

/-! ## The threads -/

/-- The accept thread: in `accept`, before `poll_net_add_fd`, before `accept_cb`. -/
inductive AcceptPc where
  | idle
  | accepted (fd : Fd) (conn : Conn)
  | added (fd : Fd) (conn : Conn)
  deriving DecidableEq

/-- A finished call of `poll_net_add_fd` with the table it was made on. -/
structure Logged where
  net : PollNet
  fd : Fd
  conn : Conn
  added : Added
  deriving DecidableEq

/-- `removing`: the entry the poll thread has called `disconnect_cb` for and not
yet removed. `persons`: the connections announced by `accept_cb` and not yet
disconnected, by descriptor. `ins` are the connections that `poll_net_add_fd`
took, `announced` those given to `accept_cb`. -/
structure State where
  net : PollNet
  conns : Nat
  accept : AcceptPc
  removing : Option Nat
  persons : Table Fd Conn
  log : List Logged
  ins : List Conn
  announced : List Conn
  fault : Bool

/-- `poll_net_init` -/
def init : State where
  net := ⟨true, List.replicate MIN_POLLFD ⟨0, 0, 0, 0⟩, 0⟩
  conns := 0
  accept := .idle
  removing := none
  persons := ∅
  log := []
  ins := []
  announced := []
  fault := false

inductive Act where
  /-- `accept` returns `fd`; which descriptors are free does not matter here -/
  | accept (fd : Fd)
  /-- the accept thread's `poll_net_add_fd` -/
  | addFd
  /-- the accept thread's `accept_cb` -/
  | acceptCb
  /-- the poll thread's `disconnect_cb` for the entry at an index -/
  | disconnectCb (i : Nat)
  /-- `shutdown`, `close` and the removal of that entry -/
  | remove
  /-- `poll_net_free` begins -/
  | stop

/-- The accept thread does not look at the result of `poll_net_add_fd`. -/
def step (s : State) : Act → Option State
  | .accept fd =>
    if s.accept = .idle then some { s with conns := s.conns + 1, accept := .accepted fd s.conns }
    else none
  | .addFd =>
    match s.accept with
    | .accepted fd conn =>
      match pollNetAddFd s.net fd conn with
      | .error _ => some { s with fault := true }
      | .ok a => some { s with
          net := a.net
          accept := .added fd conn
          log := s.log ++ [⟨s.net, fd, conn, a⟩]
          ins := if a.ret = 0 then s.ins ++ [conn] else s.ins }
    | _ => none
  | .acceptCb =>
    match s.accept with
    | .added fd conn => some { s with
        accept := .idle
        persons := s.persons.insert fd conn
        announced := s.announced ++ [conn] }
    | _ => none
  | .disconnectCb i =>
    match s.removing, s.net.polled[i]? with
    | none, some e => some { s with removing := some i, persons := s.persons.erase e.fd }
    | _, _ => none
  | .remove =>
    match s.removing with
    | some i =>
      match removeEntry s.net (UInt64.ofNat i) with
      | .error _ => some { s with fault := true }
      | .ok net => some { s with net := net, removing := none }
    | none => none
  | .stop => some { s with net := { s.net with active := false } }

def threads : LTS State Act := .ofFn (· = init) step

/-- A descriptor is only added to an active net that is not full, and the poll
thread does not find a connection gone before `accept_cb` has announced it. -/
def Timely (s : State) : Act → Bool
  | .addFd => s.net.active && s.net.nfds.toNat + 1 != RLIMIT_NOFILE
  | .disconnectCb i =>
    match s.accept, s.net.polled[i]? with
    | .added _ conn, some e => e.conn != conn
    | _, _ => true
  | _ => true

/-- What the threads owe: every call of `poll_net_add_fd` is honest, a connection
is announced only if it was taken, and a person's connection is polled. -/
structure Matched (s : State) : Prop where
  fault : s.fault = false
  calls : ∀ c ∈ s.log, c.added.Honest c.net c.fd c.conn
  announced : ∀ c ∈ s.announced, c ∈ s.ins
  persons : ∀ fd c, s.persons.lookup fd = some c → ∃ e ∈ s.net.polled, e.fd = fd ∧ e.conn = c

/-- The connection is polled and not about to be removed. -/
def State.Holds (s : State) (fd : Fd) (conn : Conn) : Prop :=
  ∃ j e, s.net.polled[j]? = some e ∧ e.fd = fd ∧ e.conn = conn ∧ s.removing ≠ some j

structure Inv (s : State) : Prop where
  fault : s.fault = false
  calls : ∀ c ∈ s.log, c.added.Honest c.net c.fd c.conn
  count : s.net.nfds.toNat < RLIMIT_NOFILE
  room : MIN_POLLFD ≤ s.net.fds.length
  index : ∀ i, s.removing = some i → i < s.net.nfds.toNat
  announced : ∀ c ∈ s.announced, c ∈ s.ins
  added : ∀ fd c, s.accept = .added fd c → c ∈ s.ins ∧ s.Holds fd c
  persons : ∀ fd c, s.persons.lookup fd = some c → s.Holds fd c

theorem Inv.matched {s : State} (h : Inv s) : Matched s := by
  refine ⟨h.fault, h.calls, h.announced, fun fd c hc => ?_⟩
  obtain ⟨j, e, he, hfd, hconn, -⟩ := h.persons fd c hc
  exact ⟨e, List.mem_of_getElem? he, hfd, hconn⟩

theorem Inv.length_polled {s : State} (h : Inv s) : s.net.polled.length = s.net.nfds.toNat := by
  have hroom := h.room
  have hcount := h.count
  unfold MIN_POLLFD at hroom
  unfold RLIMIT_NOFILE at hcount
  apply List.length_take_of_le
  omega

theorem init_inv : Inv init where
  fault := rfl
  calls := nofun
  count := by decide
  room := by simp [init]
  index := nofun
  announced := nofun
  added := nofun
  persons := by simp [init]

/-- Only the list of entries and the entry being removed matter. -/
theorem State.Holds.mono {s t : State} {fd : Fd} {conn : Conn} (h : s.Holds fd conn)
    {l : List PollFd} (hpolled : t.net.polled = s.net.polled ++ l)
    (hremoving : t.removing = s.removing) : t.Holds fd conn := by
  obtain ⟨j, e, he, hfd, hconn, hj⟩ := h
  refine ⟨j, e, ?_, hfd, hconn, by rw [hremoving]; exact hj⟩
  rw [hpolled, List.getElem?_append_left (List.getElem?_eq_some_iff.1 he).1]
  exact he

theorem step_addFd {s s' : State} (h : Inv s) (hs : step s .addFd = some s')
    (hC : Timely s .addFd = true) : Inv s' := by
  have hroom := h.room
  have hcount := h.count
  unfold MIN_POLLFD at hroom
  simp only [Timely, Bool.and_eq_true, bne_iff_ne] at hC
  obtain ⟨hact, hlimit⟩ := hC
  unfold RLIMIT_NOFILE at hcount
  cases hpc : s.accept with
  | idle => simp [step, hpc] at hs
  | added fd conn => simp [step, hpc] at hs
  | accepted fd conn =>
    obtain ⟨a, ha, hret, hclosed, hn, hpolled, hlen, hlt, -⟩ :=
      pollNetAddFd_appends fd conn hact (by omega) hlimit (by omega)
    simp only [step, hpc, ha, hret, if_true, Option.some.injEq] at hs
    subst hs
    unfold RLIMIT_NOFILE at hlimit
    refine { fault := h.fault, calls := ?_, count := ?_, room := ?_, index := ?_, announced := ?_,
             added := ?_, persons := ?_ }
    · intro c hc
      rcases List.mem_append.1 hc with hc | hc
      · exact h.calls c hc
      · rw [List.mem_singleton.1 hc]
        exact .inl ⟨hret, hlt, hn, hpolled, hclosed⟩
    · change a.net.nfds.toNat < 7
      omega
    · change 128 ≤ a.net.fds.length
      omega
    · intro i hi
      have := h.index i hi
      change i < a.net.nfds.toNat
      omega
    · exact fun c hc => List.mem_append_left _ (h.announced c hc)
    · intro fd' c hc
      cases hc
      refine ⟨by simp, s.net.polled.length, entryFor fd conn, ?_, rfl, rfl, fun hr => ?_⟩
      · change a.net.polled[_]? = _
        rw [hpolled]
        simp
      · have := h.index _ hr
        rw [h.length_polled] at this
        omega
    · exact fun fd' c hc => (h.persons fd' c hc).mono hpolled rfl

theorem step_acceptCb {s s' : State} (h : Inv s) (hs : step s .acceptCb = some s') : Inv s' := by
  cases hpc : s.accept with
  | idle => simp [step, hpc] at hs
  | accepted fd conn => simp [step, hpc] at hs
  | added fd conn =>
    simp only [step, hpc, Option.some.injEq] at hs
    subst hs
    obtain ⟨hin, hholds⟩ := h.added fd conn hpc
    refine { h with announced := ?_, added := nofun, persons := ?_ }
    · intro c hc
      rcases List.mem_append.1 hc with hc | hc
      · exact h.announced c hc
      · rw [List.mem_singleton.1 hc]
        exact hin
    · intro fd' c hc
      change (AList.insert fd conn s.persons).lookup fd' = some c at hc
      rw [Table.lookup_insert_if] at hc
      split at hc
      · rename_i he
        cases hc
        rw [he]
        exact hholds
      · exact h.persons fd' c hc

theorem step_disconnectCb {s s' : State} {i : Nat} (h : Inv s)
    (hs : step s (.disconnectCb i) = some s') (hC : Timely s (.disconnectCb i) = true) : Inv s' := by
  cases hr : s.removing with
  | some j => simp [step, hr] at hs
  | none =>
    cases he : s.net.polled[i]? with
    | none => simp [step, hr, he] at hs
    | some e =>
      simp only [step, hr, he, Option.some.injEq] at hs
      subst hs
      refine { h with index := ?_, added := ?_, persons := ?_ }
      · intro j hj
        cases hj
        have := (List.getElem?_eq_some_iff.1 he).1
        rw [h.length_polled] at this
        exact this
      · intro fd c hc
        obtain ⟨hin, j, e', he', hfd, hconn, -⟩ := h.added fd c hc
        refine ⟨hin, j, e', he', hfd, hconn, fun hj => ?_⟩
        cases hj
        cases he.symm.trans he'
        have hacc : s.accept = .added fd c := hc
        simp [Timely, hacc, he, hconn] at hC
      · intro fd c hc
        obtain ⟨hne, hc⟩ := Table.of_lookup_erase hc
        obtain ⟨j, e', he', hfd, hconn, -⟩ := h.persons fd c hc
        refine ⟨j, e', he', hfd, hconn, fun hj => ?_⟩
        cases hj
        cases he.symm.trans he'
        exact hne hfd.symm

theorem removeEntry_eraseIdx {net : PollNet} {i : Nat} (hi : i < net.nfds.toNat)
    (hsize : net.nfds.toNat ≤ net.fds.length) :
    ∃ net', removeEntry net (UInt64.ofNat i) = .ok net' ∧
      net'.polled = net.polled.eraseIdx i ∧ net'.nfds.toNat = net.nfds.toNat - 1 ∧
      net'.fds.length = net.fds.length ∧ net'.active = net.active := by
  have hlt := net.nfds.toNat_lt
  have hidx : (UInt64.ofNat i).toNat = i := by
    simp
    omega
  have hcount := toNat_pred (n := net.nfds) (by omega)
  refine ⟨_, removeEntry_eq (hidx.symm ▸ hi) hsize, ?_, hcount, ?_, rfl⟩
  · simp only [PollNet.polled, hcount, hidx]
    exact take_removeAt hi hsize
  · simp only [hidx]
    exact length_removeAt hi hsize

theorem step_remove {s s' : State} (h : Inv s) (hs : step s .remove = some s') : Inv s' := by
  have hroom := h.room
  have hcount := h.count
  unfold MIN_POLLFD at hroom
  unfold RLIMIT_NOFILE at hcount
  cases hr : s.removing with
  | none => simp [step, hr] at hs
  | some i =>
    obtain ⟨net', hrem, hpolled, hn, hlen, -⟩ :=
      removeEntry_eraseIdx (h.index i hr) (show s.net.nfds.toNat ≤ s.net.fds.length by omega)
    simp only [step, hr, hrem, Option.some.injEq] at hs
    subst hs
    -- an entry that is not the removed one is still there
    have hstay : ∀ fd c, s.Holds fd c →
        State.Holds { s with net := net', removing := none } fd c := by
      intro fd c hc
      obtain ⟨j, e, he, hfd, hconn, hj⟩ := hc
      have hmem : e ∈ net'.polled := by
        rw [hpolled, List.mem_eraseIdx_iff_getElem?]
        exact ⟨j, fun hji => hj (by rw [hr, hji]), he⟩
      obtain ⟨k, hk⟩ := List.mem_iff_getElem?.1 hmem
      exact ⟨k, e, hk, hfd, hconn, nofun⟩
    refine { h with count := ?_, room := ?_, index := nofun, added := ?_, persons := ?_ }
    · change net'.nfds.toNat < 7
      omega
    · change 128 ≤ net'.fds.length
      omega
    · exact fun fd c hc => ⟨(h.added fd c hc).1, hstay fd c (h.added fd c hc).2⟩
    · exact fun fd c hc => hstay fd c (h.persons fd c hc)

theorem step_inv {s s' : State} {a : Act} (h : Inv s) (hs : step s a = some s')
    (hC : Timely s a = true) : Inv s' := by
  cases a with
  | accept fd =>
    simp only [step] at hs
    split at hs
    · cases hs
      exact { h with added := nofun }
    · cases hs
  | addFd => exact step_addFd h hs hC
  | acceptCb => exact step_acceptCb h hs
  | disconnectCb i => exact step_disconnectCb h hs hC
  | remove => exact step_remove h hs
  | stop =>
    cases hs
    exact { h with }

end FfiRpc.PollTable
