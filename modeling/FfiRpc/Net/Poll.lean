import FfiRpc.Core.LTS
import FfiRpc.Core.Table
import FfiRpc.Net.Tables

/-!
# Accepting and polling connections

One `poll_net` and the table of persons (poll_network.c:57-155,
rpc_network.c:114-174 and 208-230), with the workers' error exits
(rpc_server.c:240-249). Three kinds of thread take turns:

* the accept thread, which for each new client calls `poll_net_add_fd` and then
  `net_accept`;
* the poll thread, which after a `poll` scans the entries: `net_read` for
  `POLLIN`, then, for a hang-up or an error, `net_discon`, `close` and the removal
  of the entry;
* the workers, which run `net_job` and may close the job's descriptor.

The array of entries is kept as `growFds` and `removeAt` leave it; that the code's `memmove`
does this, with its unsigned counters, is shown for the poll table by itself (`PollTable`).

The kernel gives a new connection any descriptor that is not open. Connections
are numbered as `accept` returns them. Ghost data: the connection an entry was
added for, a person was made for, a request came in on, and for each `close` the
connection it was meant for and the one it hit.

An access outside the table of persons is undefined behaviour: the run ends
(`fault`).
-/
namespace FfiRpc.Poll

/-- `gone`: any of `POLLHUP`, `POLLERR`, `POLLNVAL`, `POLLRDHUP`. -/
structure Revents where
  pollin : Bool
  gone : Bool
  deriving DecidableEq

structure PollFd where
  fd : Fd
  conn : Conn
  revents : Revents
  deriving DecidableEq

/-- `struct _rpc_net_person`; the queue is emptied by the `net_read` that fills
it, so it is not kept. -/
structure Person where
  fd : Fd
  conn : Conn
  deriving DecidableEq

/-- A request in the thread pool, queued or running. -/
structure Job where
  fd : Fd
  conn : Conn
  deriving DecidableEq

inductive Closer where
  | netRead | netJob | pollThread | addFd
  deriving DecidableEq

/-- A `close`: who made it, the connection meant and the one hit, if any. -/
structure Close where
  closer : Closer
  meant : Conn
  hit : Option Conn
  deriving DecidableEq

/-- The accept thread: in `accept`, before `poll_net_add_fd`, before `net_accept`. -/
inductive AcceptPc where
  | idle
  | accepted (fd : Fd) (conn : Conn)
  | added (fd : Fd) (conn : Conn)
  deriving DecidableEq

/-- The poll thread: in `poll`, at the top of the loop with index `i`, after the
test for `POLLIN`, after `disconnect_cb`. -/
inductive PollPc where
  | poll
  | scan (i : Nat)
  | checked (i : Nat)
  | discon (i : Nat)
  deriving DecidableEq

structure State where
  files : Table Fd Conn
  conns : Nat
  fds : List PollFd
  nfds : Nat
  persons : List (Option Person)
  jobs : List Job
  accept : AcceptPc
  poll : PollPc
  closes : List Close
  fault : Bool

/-- The polled part of the array. -/
def State.polled (s : State) : List PollFd := s.fds.take s.nfds

def State.person (s : State) (fd : Fd) : Option Person := (s.persons[fd]?).join

/-- `poll_net_init`, before the first client. -/
def init : State where
  files := ∅
  conns := 0
  fds := List.replicate MIN_POLLFD ⟨0, 0, ⟨false, false⟩⟩
  nfds := 0
  persons := []
  jobs := []
  accept := .idle
  poll := .poll
  closes := []
  fault := false

/-- `shutdown` and `close` -/
def closeFd (s : State) (closer : Closer) (meant : Conn) (fd : Fd) : State :=
  { s with
    files := s.files.erase fd
    closes := s.closes ++ [⟨closer, meant, s.files.lookup fd⟩] }

/-- With this limit the array never grows.
poll_network.c:134-156 -/
def pollNetAddFd (s : State) (fd : Fd) (conn : Conn) : State :=
  let s := { s with fds := growFds ⟨0, 0, ⟨false, false⟩⟩ s.fds s.nfds }
  if s.nfds + 1 = RLIMIT_NOFILE then
    match s.fds[s.nfds]? with
    | some slot => closeFd s .addFd conn slot.fd
    | none => { s with fault := true }
  else { s with fds := s.fds.set s.nfds ⟨fd, conn, ⟨false, false⟩⟩, nfds := s.nfds + 1 }

/-- `persondata_destroy` waits until the thread pool is idle: no step before.
rpc_network.c:158-174 -/
def netDiscon (s : State) (fd : Fd) : Option State :=
  match s.persons[fd]? with
  | none => some { s with fault := true }
  | some none => some s
  | some (some _) => if s.jobs = [] then some { s with persons := s.persons.set fd none } else none

/-- rpc_network.c:127-155 -/
def netAccept (s : State) (fd : Fd) (conn : Conn) : Option State :=
  let s := { s with persons := makePersonsfdBigger s.persons fd }
  (netDiscon s fd).map fun s =>
    if s.fault then s else { s with persons := s.persons.set fd (some ⟨fd, conn⟩) }

/-- `request`: whether a well-formed request is there to be received, which takes
an open descriptor. A request becomes a job at once (`message_receiver`).
rpc_network.c:208-230 -/
def netRead (s : State) (e : PollFd) (request : Bool) : State :=
  if e.fd < s.persons.length then
    match s.person e.fd with
    | some person =>
      match request, s.files.lookup e.fd with
      | true, some conn => { s with jobs := s.jobs ++ [⟨person.fd, conn⟩] }
      | _, _ => closeFd s .netRead e.conn e.fd
    | none => closeFd s .netRead e.conn e.fd
  else closeFd s .netRead e.conn e.fd

/-- What `poll` may report for an entry: a descriptor that is not open gives
`POLLNVAL` alone. -/
def Reports (s : State) (e : PollFd) (r : Revents) : Bool :=
  (s.files.lookup e.fd).isSome || r == ⟨false, true⟩

/-- One step of a thread. -/
inductive Act where
  /-- `accept` returns `fd` -/
  | accept (fd : Fd)
  /-- the accept thread's `poll_net_add_fd` -/
  | addFd
  /-- the accept thread's `accept_cb` -/
  | netAccept
  /-- `poll` returns with these `revents` -/
  | poll (revents : List Revents)
  /-- the loop condition and, for `POLLIN`, `read_cb` -/
  | scan (request : Bool)
  /-- the test for a hang-up and `disconnect_cb` -/
  | check
  /-- `shutdown`, `close` and the removal of the entry -/
  | close
  /-- the `k`-th job ends, by its error exit or not -/
  | job (k : Nat) (err : Bool)

def act (s : State) : Act → Option State
  | .accept fd =>
    if s.accept = .idle ∧ s.files.lookup fd = none then
      some { s with
        files := s.files.insert fd s.conns
        conns := s.conns + 1
        accept := .accepted fd s.conns }
    else none
  | .addFd =>
    match s.accept with
    | .accepted fd conn => some { pollNetAddFd s fd conn with accept := .added fd conn }
    | _ => none
  | .netAccept =>
    match s.accept with
    | .added fd conn => (netAccept s fd conn).map ({ · with accept := .idle })
    | _ => none
  | .poll revents =>
    if s.poll = .poll ∧ revents.length = s.nfds ∧
        ∀ p ∈ s.polled.zip revents, Reports s p.1 p.2 then
      some { s with
        fds := s.polled.zipWith (fun e r => { e with revents := r }) revents ++ s.fds.drop s.nfds
        poll := if revents.any fun r => r.pollin || r.gone then .scan 0 else .poll }
    else none
  | .scan request =>
    match s.poll with
    | .scan i =>
      match s.polled[i]? with
      | some e =>
        let s := if e.revents.pollin then netRead s e request else s
        some { s with poll := .checked i }
      | none => some { s with poll := .poll }
    | _ => none
  | .check =>
    match s.poll with
    | .checked i =>
      match s.fds[i]? with
      | some e =>
        if e.revents.gone then (netDiscon s e.fd).map ({ · with poll := .discon i })
        else some { s with poll := .scan (i + 1) }
      | none => none
    | _ => none
  | .close =>
    match s.poll with
    | .discon i =>
      match s.fds[i]? with
      | some e =>
        let s := closeFd s .pollThread e.conn e.fd
        some { s with fds := removeAt s.fds s.nfds i, nfds := s.nfds - 1, poll := .scan i }
      | none => none
    | _ => none
  | .job k err =>
    match s.jobs[k]? with
    | some job =>
      let s := if err then closeFd s .netJob job.conn job.fd else s
      some { s with jobs := s.jobs.eraseIdx k }
    | none => none

def step (s : State) (a : Act) : Option State := if s.fault then none else act s a

def pollNet : LTS State Act := .ofFn (· = init) step

/-- The entry that the poll thread is about to give to `net_read`. -/
def State.reading (s : State) : Option PollFd :=
  match s.poll with
  | .scan i => s.polled[i]?.filter fun e => e.revents.pollin
  | _ => none

/-- What the accept thread has got from `accept` and not yet given to
`net_accept`. -/
def State.held (s : State) : Option (Fd × Conn) :=
  match s.accept with
  | .idle => none
  | .accepted fd conn => some (fd, conn)
  | .added fd conn => some (fd, conn)

/-- The descriptor that the poll thread is about to close. -/
def State.leaving (s : State) : Option Fd :=
  match s.poll with
  | .discon i => (s.fds[i]?).map PollFd.fd
  | _ => none

/-! ## What a step does -/

section
variable {s s' t : State}

theorem step_act {a : Act} (h : step s a = some s') : s.fault = false ∧ act s a = some s' := by
  unfold step at h
  split at h
  · cases h
  · rename_i hf
    exact ⟨Bool.eq_false_iff.2 hf, h⟩

theorem act_accept {fd : Fd} (h : act s (.accept fd) = some s') :
    s.accept = .idle ∧ s.files.lookup fd = none ∧ s' = { s with
      files := s.files.insert fd s.conns, conns := s.conns + 1, accept := .accepted fd s.conns } := by
  simp only [act] at h
  split at h
  · rename_i hc
    cases h
    exact ⟨hc.1, hc.2, rfl⟩
  · cases h

theorem act_addFd (h : act s .addFd = some s') : ∃ fd conn, s.accept = .accepted fd conn ∧
    s' = { pollNetAddFd s fd conn with accept := .added fd conn } := by
  simp only [act] at h
  split at h
  · rename_i fd conn hpc
    cases h
    exact ⟨fd, conn, hpc, rfl⟩
  · cases h

theorem act_netAccept (h : act s .netAccept = some s') : ∃ fd conn t, s.accept = .added fd conn ∧
    netAccept s fd conn = some t ∧ s' = { t with accept := .idle } := by
  simp only [act] at h
  split at h
  · rename_i fd conn hpc
    obtain ⟨t, ht, hs'⟩ := Option.map_eq_some_iff.1 h
    exact ⟨fd, conn, t, hpc, ht, hs'.symm⟩
  · cases h

theorem act_poll {revents : List Revents} (h : act s (.poll revents) = some s') :
    s.poll = .poll ∧ revents.length = s.nfds ∧ ∃ pc, s' = { s with
      fds := s.polled.zipWith (fun e r => { e with revents := r }) revents ++ s.fds.drop s.nfds
      poll := pc } ∧ (pc = .poll ∨ pc = .scan 0) := by
  simp only [act] at h
  split at h
  · rename_i hc
    cases h
    refine ⟨hc.1, hc.2.1, _, rfl, ?_⟩
    split
    · exact .inr rfl
    · exact .inl rfl
  · cases h

theorem act_scan {request : Bool} (h : act s (.scan request) = some s') : ∃ i, s.poll = .scan i ∧
    ((s.polled[i]? = none ∧ s' = { s with poll := .poll }) ∨
      ∃ e, s.polled[i]? = some e ∧
        ((e.revents.pollin = false ∧ s' = { s with poll := .checked i }) ∨
          (s.reading = some e ∧ s' = { netRead s e request with poll := .checked i }))) := by
  simp only [act] at h
  split at h
  · rename_i i hpc
    refine ⟨i, hpc, ?_⟩
    split at h
    · rename_i e he
      right
      refine ⟨e, he, ?_⟩
      cases hp : e.revents.pollin with
      | false =>
        rw [hp] at h
        cases h
        exact .inl ⟨rfl, rfl⟩
      | true =>
        rw [hp] at h
        cases h
        refine .inr ⟨?_, rfl⟩
        simp [State.reading, hpc, he, hp]
    · rename_i he
      cases h
      exact .inl ⟨he, rfl⟩
  · cases h

theorem act_reading {request : Bool} {e : PollFd} (h : act s (.scan request) = some s')
    (hread : s.reading = some e) : ∃ i, s' = { netRead s e request with poll := .checked i } := by
  obtain ⟨i, hpc, hcase⟩ := act_scan h
  have he : s.polled[i]? = some e ∧ e.revents.pollin = true := by
    simpa [State.reading, hpc, Option.filter_eq_some_iff] using hread
  rcases hcase with ⟨hnone, -⟩ | ⟨e', he', ⟨hno, -⟩ | ⟨-, rfl⟩⟩
  · rw [he.1] at hnone; cases hnone
  · rw [he.1] at he'
    cases he'
    rw [he.2] at hno; cases hno
  · rw [he.1] at he'
    cases he'
    exact ⟨i, rfl⟩

theorem act_check (h : act s .check = some s') : ∃ i e, s.poll = .checked i ∧
    s.fds[i]? = some e ∧ ((∃ t, netDiscon s e.fd = some t ∧ s' = { t with poll := .discon i }) ∨
      s' = { s with poll := .scan (i + 1) }) := by
  simp only [act] at h
  split at h
  · rename_i i hpc
    split at h
    · rename_i e he
      refine ⟨i, e, hpc, he, ?_⟩
      split at h
      · obtain ⟨t, ht, hs'⟩ := Option.map_eq_some_iff.1 h
        exact .inl ⟨t, ht, hs'.symm⟩
      · cases h
        exact .inr rfl
    · cases h
  · cases h

theorem act_close (h : act s .close = some s') : ∃ i e, s.poll = .discon i ∧
    s.fds[i]? = some e ∧ s' = { closeFd s .pollThread e.conn e.fd with
      fds := removeAt s.fds s.nfds i, nfds := s.nfds - 1, poll := .scan i } := by
  simp only [act] at h
  split at h
  · rename_i i hpc
    split at h
    · rename_i e he
      cases h
      exact ⟨i, e, hpc, he, rfl⟩
    · cases h
  · cases h

theorem act_job {k : Nat} {err : Bool} (h : act s (.job k err) = some s') : ∃ job,
    s.jobs[k]? = some job ∧ s' = { (if err then closeFd s .netJob job.conn job.fd else s) with
      jobs := s.jobs.eraseIdx k } := by
  simp only [act] at h
  split at h
  · rename_i job hj
    cases h
    refine ⟨job, hj, ?_⟩
    cases err <;> rfl
  · cases h

/-! ## What the callbacks do -/

theorem person_set {fd : Fd} {o : Option Person} (h : fd < s.persons.length) (fd' : Fd) :
    State.person { s with persons := s.persons.set fd o } fd' =
      if fd' = fd then o else s.person fd' := by
  simp only [State.person]
  split
  · rename_i he
    rw [he, List.getElem?_set_self h]
    rfl
  · rename_i hne
    rw [List.getElem?_set_ne (Ne.symm hne)]

theorem person_bigger (upTo fd : Fd) :
    State.person { s with persons := makePersonsfdBigger s.persons upTo } fd = s.person fd :=
  join_makePersonsfdBigger s.persons upTo fd

/-- `net_discon` only takes the person at `fd` away; if there is one, no job is
left. -/
theorem netDiscon_spec {fd : Fd} (h : netDiscon s fd = some t) :
    ∃ persons fault, t = { s with persons := persons, fault := fault } ∧
      (fd < s.persons.length → fault = s.fault) ∧ (fault = false → fd < persons.length) ∧
      (∀ fd', fd' ≠ fd → t.person fd' = s.person fd') ∧ t.person fd = none ∧
      (s.jobs = [] ∨ s.person fd = none) := by
  unfold netDiscon at h
  split at h
  · rename_i hnone
    cases h
    have hout : s.persons.length ≤ fd := List.getElem?_eq_none_iff.1 hnone
    have hp : s.person fd = none := by simp [State.person, hnone]
    exact ⟨_, _, rfl, fun hlt => absurd hlt (Nat.not_lt.2 hout), nofun, fun _ _ => rfl, hp, .inr hp⟩
  · rename_i hnone
    cases h
    have hp : s.person fd = none := by simp [State.person, hnone]
    exact ⟨_, _, rfl, fun _ => rfl, fun _ => (List.getElem?_eq_some_iff.1 hnone).1, fun _ _ => rfl,
      hp, .inr hp⟩
  · rename_i p hp
    split at h
    · rename_i hjobs
      cases h
      have hlt : fd < s.persons.length := (List.getElem?_eq_some_iff.1 hp).1
      refine ⟨_, _, rfl, fun _ => rfl, fun _ => by rwa [List.length_set], fun fd' hne => ?_, ?_,
        .inl hjobs⟩
      · rw [person_set hlt, if_neg hne]
      · rw [person_set hlt, if_pos rfl]
    · cases h

/-- `net_accept` makes the person at `fd`, if its place is in the table. -/
theorem netAccept_spec {fd : Fd} {conn : Conn} (h : netAccept s fd conn = some t) :
    ∃ persons fault, t = { s with persons := persons, fault := fault } ∧
      (fd < s.persons.length + HOLDER_MIN_ALLOC_FDS → fault = s.fault) ∧
      (fault = false → t.person fd = some ⟨fd, conn⟩) ∧
      (∀ fd', fd' ≠ fd → t.person fd' = s.person fd') ∧
      (t.person fd = none ∨ t.person fd = some ⟨fd, conn⟩) ∧
      (s.jobs = [] ∨ s.person fd = none) := by
  obtain ⟨u, hu, ht⟩ := Option.map_eq_some_iff.1 h
  obtain ⟨persons, fault, hu', hfault, hin, hother, hself, hjobs⟩ := netDiscon_spec hu
  rw [person_bigger] at hjobs
  have hfault' : fd < s.persons.length + HOLDER_MIN_ALLOC_FDS → fault = s.fault := fun hlt =>
    hfault ((lt_length_makePersonsfdBigger s.persons fd).2 hlt)
  subst hu'
  cases fault with
  | true =>
    rw [if_pos rfl] at ht
    subst ht
    exact ⟨_, _, rfl, hfault', nofun, fun fd' hne => (hother fd' hne).trans (person_bigger _ _),
      .inl hself, hjobs⟩
  | false =>
    rw [if_neg Bool.false_ne_true] at ht
    subst ht
    have hnew := person_set (s := { s with persons := persons, fault := false })
      (o := some ⟨fd, conn⟩) (hin rfl)
    refine ⟨_, _, rfl, hfault', fun _ => ?_, fun fd' hne => ?_, .inr ?_, hjobs⟩
    · exact (hnew fd).trans (if_pos rfl)
    · exact ((hnew fd').trans (if_neg hne)).trans ((hother fd' hne).trans (person_bigger _ _))
    · exact (hnew fd).trans (if_pos rfl)

/-- `net_read` makes a job of a request, or closes the descriptor. -/
theorem netRead_spec (s : State) (e : PollFd) (request : Bool) :
    (∃ person conn, request = true ∧ s.person e.fd = some person ∧
        s.files.lookup e.fd = some conn ∧
        netRead s e request = { s with jobs := s.jobs ++ [⟨person.fd, conn⟩] }) ∨
      ((request = true → s.person e.fd = none ∨ s.files.lookup e.fd = none) ∧
        netRead s e request = closeFd s .netRead e.conn e.fd) := by
  unfold netRead
  split
  · split
    · rename_i person hp
      split
      · rename_i conn hc
        exact .inl ⟨person, conn, rfl, hp, hc, rfl⟩
      · rename_i hno
        refine .inr ⟨fun hr => .inr ?_, rfl⟩
        cases hc : s.files.lookup e.fd with
        | none => rfl
        | some conn => exact (hno conn hr hc).elim
    · rename_i hp
      exact .inr ⟨fun _ => .inl hp, rfl⟩
  · rename_i hlt
    refine .inr ⟨fun _ => .inl ?_, rfl⟩
    rw [State.person, List.getElem?_eq_none (Nat.le_of_not_lt hlt)]
    rfl

end

end FfiRpc.Poll
