import FfiRpc.Net.Poll

/-!
# What holds of the poll set and the persons

`Shape` holds in every run: the array of entries never grows, because
`RLIMIT_NOFILE` stops it first.

`reading_iff`: `net_read` on an open connection finds that connection's person
exactly when the accept thread is not between `accept` and `net_accept` for the
descriptor. `reading_missed` is a run in which it is.

`sound_iff`: the poll set is sound as long as nothing but the removal of an entry
closes a polled connection, and the first other close of one breaks it.
`close_hits_other` is the run of an ordinary disconnect that closes the next
client's connection.
-/
namespace FfiRpc.Poll

variable {s s' t : State}

/-! ## The array of entries

It is made with `MIN_POLLFD` entries. `poll_net_add_fd` refuses at `RLIMIT_NOFILE`, which is
less, so it never has to grow. -/

/-- The array has its first length, and indices point at entries. -/
structure Shape (s : State) : Prop where
  size : s.fds.length = MIN_POLLFD
  bound : s.nfds < RLIMIT_NOFILE
  index : ∀ i, s.poll = .checked i ∨ s.poll = .discon i → i < s.nfds

theorem Shape.lt_length (h : Shape s) : s.nfds < s.fds.length := by
  have hsize := h.size
  have hbound := h.bound
  rw [MIN_POLLFD] at hsize
  rw [RLIMIT_NOFILE] at hbound
  omega

/-- A new entry is appended, or refused at the limit, where the descriptor
closed is the one in the first slot past the end. -/
theorem Shape.addFd (h : Shape s) (fd : Fd) (conn : Conn) :
    (s.nfds + 1 = RLIMIT_NOFILE ∧ ∃ slot, s.fds[s.nfds]? = some slot ∧
        pollNetAddFd s fd conn = closeFd s .addFd conn slot.fd) ∨
      (s.nfds + 1 < RLIMIT_NOFILE ∧ pollNetAddFd s fd conn =
        { s with fds := s.fds.set s.nfds ⟨fd, conn, ⟨false, false⟩⟩, nfds := s.nfds + 1 }) := by
  have hlt := h.lt_length
  have hsize := h.size
  have hbound := h.bound
  rw [MIN_POLLFD] at hsize
  rw [RLIMIT_NOFILE] at hbound
  have hgrow : ¬ s.nfds = s.fds.length - 1 := by omega
  have hfds : growFds ⟨0, 0, ⟨false, false⟩⟩ s.fds s.nfds = s.fds := if_neg hgrow
  unfold pollNetAddFd
  rw [hfds]
  by_cases hlim : s.nfds + 1 = RLIMIT_NOFILE
  · left
    obtain ⟨slot, hslot⟩ : ∃ slot, s.fds[s.nfds]? = some slot := ⟨_, List.getElem?_eq_getElem hlt⟩
    refine ⟨hlim, slot, hslot, ?_⟩
    simp only [if_pos hlim, hslot]
  · right
    refine ⟨?_, by rw [if_neg hlim]⟩
    rw [RLIMIT_NOFILE] at hlim ⊢
    omega

theorem init_shape : Shape init :=
  ⟨List.length_replicate, by decide, fun i h => by rcases h with h | h <;> cases h⟩

theorem Shape.congr (h : Shape s) (hfds : s'.fds.length = s.fds.length) (hnfds : s'.nfds = s.nfds)
    (hindex : ∀ i, s'.poll = .checked i ∨ s'.poll = .discon i → i < s.nfds) : Shape s' :=
  ⟨hfds.trans h.size, hnfds ▸ h.bound, hnfds ▸ hindex⟩

/-- One step. -/
theorem step_shape {a : Act} (h : Shape s) (hs : step s a = some s') : Shape s' := by
  obtain ⟨-, hs⟩ := step_act hs
  cases a with
  | accept fd =>
    obtain ⟨-, -, rfl⟩ := act_accept hs
    exact h.congr rfl rfl h.index
  | addFd =>
    obtain ⟨fd, conn, -, rfl⟩ := act_addFd hs
    rcases h.addFd fd conn with ⟨-, slot, -, hadd⟩ | ⟨hlt, hadd⟩
    · rw [hadd]
      exact h.congr rfl rfl h.index
    · rw [hadd]
      exact ⟨List.length_set.trans h.size, hlt, fun i hi => Nat.lt_succ_of_lt (h.index i hi)⟩
  | netAccept =>
    obtain ⟨fd, conn, t, -, ht, rfl⟩ := act_netAccept hs
    obtain ⟨persons, fault, rfl, -⟩ := netAccept_spec ht
    exact h.congr rfl rfl h.index
  | poll revents =>
    obtain ⟨-, hlen, pc, rfl, hpc⟩ := act_poll hs
    refine h.congr ?_ rfl fun i hi => ?_
    · have := h.lt_length
      simp only [State.polled, List.length_append, List.length_zipWith, List.length_take,
        List.length_drop, hlen]
      omega
    · rcases hpc with rfl | rfl
      · rcases hi with hi | hi <;> cases hi
      · rcases hi with hi | hi <;> cases hi
  | scan request =>
    obtain ⟨i, -, ⟨-, rfl⟩ | ⟨e, he, hread⟩⟩ := act_scan hs
    · exact h.congr rfl rfl fun i hi => by rcases hi with hi | hi <;> cases hi
    · have hi : i < s.nfds := by
        have := (List.getElem?_eq_some_iff.1 he).1
        rw [State.polled, List.length_take] at this
        omega
      have hindex : ∀ j, PollPc.checked i = .checked j ∨ PollPc.checked i = .discon j →
          j < s.nfds := by
        intro j hj
        rcases hj with hj | hj
        · cases hj
          exact hi
        · cases hj
      rcases hread with ⟨-, rfl⟩ | ⟨-, rfl⟩
      · exact h.congr rfl rfl hindex
      · rcases netRead_spec s e request with ⟨_, _, -, -, -, hr⟩ | ⟨-, hr⟩
        · rw [hr]
          exact h.congr rfl rfl hindex
        · rw [hr]
          exact h.congr rfl rfl hindex
  | check =>
    obtain ⟨i, e, hpc, -, ⟨t, ht, rfl⟩ | rfl⟩ := act_check hs
    · obtain ⟨persons, fault, rfl, -⟩ := netDiscon_spec ht
      refine h.congr rfl rfl fun j hj => h.index j (.inl ?_)
      rcases hj with hj | hj
      · cases hj
      · cases hj
        exact hpc
    · exact h.congr rfl rfl fun i hi => by rcases hi with hi | hi <;> cases hi
  | close =>
    obtain ⟨i, e, hpc, -, rfl⟩ := act_close hs
    have hi := h.index i (.inr hpc)
    refine ⟨(length_removeAt hi h.lt_length.le).trans h.size, ?_, fun j hj => ?_⟩
    · exact lt_of_le_of_lt (Nat.sub_le _ _) h.bound
    · rcases hj with hj | hj <;> cases hj
  | job k err =>
    obtain ⟨job, -, rfl⟩ := act_job hs
    cases err with
    | false => exact h.congr rfl rfl h.index
    | true => exact h.congr rfl rfl h.index

/-! ## A read finds its person

The accept thread adds the entry to the poll set first and tells `net_accept` after. In
between the poll thread may read. -/

/-- Runs in which the poll thread does not read from a descriptor that
`net_accept` has still to be told of, and `net_accept` is never given one that is
outside the table even when grown. -/
def Ordered (s : State) : Act → Bool
  | .scan _ => s.reading.all fun e => s.held.all fun h => h.1 ≠ e.fd
  | .netAccept => s.held.all fun h => h.1 < s.persons.length + HOLDER_MIN_ALLOC_FDS
  | _ => true

/-- Descriptors and persons agree, but for the descriptors that a thread is at work on. -/
structure Known (s : State) : Prop where
  /-- an open connection has its person, unless one of the threads is at work on it -/
  person : ∀ fd conn, s.files.lookup fd = some conn → (∀ c, s.held ≠ some (fd, c)) →
    s.person fd = some ⟨fd, conn⟩ ∨ s.leaving = some fd
  held : ∀ fd conn, s.held = some (fd, conn) → conn < s.conns ∧
    (∀ c, s.files.lookup fd = some c → c = conn) ∧ ∀ fd' p, s.person fd' = some p → p.conn < conn
  old : ∀ fd p, s.person fd = some p → p.conn < s.conns

theorem init_known : Known init where
  person fd conn h := by cases h
  held fd conn h := by cases h
  old fd p h := by simp [State.person, init] at h

/-- A step that at most closes connections. -/
theorem Known.closing (h : Known s)
    (hfiles : ∀ fd conn, s'.files.lookup fd = some conn → s.files.lookup fd = some conn)
    (hperson : s'.persons = s.persons) (hconns : s'.conns = s.conns) (hheld : s'.held = s.held)
    (hleaving : s'.leaving = s.leaving ∨ s.leaving = none) : Known s' := by
  have hp : ∀ fd, s'.person fd = s.person fd := fun fd => by rw [State.person, hperson]; rfl
  refine ⟨fun fd conn hc hno => ?_, fun fd conn hc => ?_, fun fd p hfd => ?_⟩
  · rw [hp]
    rcases h.person fd conn (hfiles fd conn hc) (hheld ▸ hno) with hk | hl
    · exact .inl hk
    · rcases hleaving with he | he
      · exact .inr (he.trans hl)
      · rw [he] at hl; cases hl
  · obtain ⟨hlt, hsame, hold⟩ := h.held fd conn (hheld ▸ hc)
    exact ⟨hconns ▸ hlt, fun c hcc => hsame c (hfiles fd c hcc), fun fd' p hfd => hold fd' p
      ((hp fd').symm.trans hfd)⟩
  · rw [hconns]
    exact h.old fd p ((hp fd).symm.trans hfd)

theorem leaving_of_ne {s : State} (h : ∀ i, s.poll ≠ .discon i) : s.leaving = none := by
  unfold State.leaving
  split
  · rename_i i hi
    exact absurd hi (h i)
  · rfl

/-- The entry the poll thread is leaving is not the slot that is filled. -/
theorem leaving_addFd (h : Shape s) (e : PollFd) :
    State.leaving { s with fds := s.fds.set s.nfds e } = s.leaving := by
  cases hp : s.poll with
  | discon i =>
    have hne : s.nfds ≠ i := (h.index i (.inr hp)).ne'
    simp only [State.leaving, hp, List.getElem?_set_ne hne]
  | poll => simp only [State.leaving, hp]
  | scan i => simp only [State.leaving, hp]
  | checked i => simp only [State.leaving, hp]

/-- One step of an ordered run. -/
theorem step_known {a : Act} (hshape : Shape s) (h : Known s) (hs : step s a = some s')
    (hord : Ordered s a = true) : Known s' := by
  obtain ⟨hfault, hs⟩ := step_act hs
  cases a with
  | accept fd =>
    obtain ⟨hidle, hnone, rfl⟩ := act_accept hs
    refine ⟨fun fd' conn hc hno => ?_, fun fd' conn hc => ?_, fun fd' p hp => ?_⟩
    · have hne : fd' ≠ fd := fun he => hno s.conns (by rw [he]; rfl)
      rw [Table.lookup_insert_if, if_neg hne] at hc
      exact h.person fd' conn hc fun c hh => by simp [State.held, hidle] at hh
    · cases hc
      refine ⟨Nat.lt_succ_self _, fun c hc => ?_, fun fd' p hp => h.old fd' p hp⟩
      rw [Table.lookup_insert_if, if_pos rfl] at hc
      exact (Option.some.inj hc).symm
    · exact Nat.lt_succ_of_lt (h.old fd' p hp)
  | addFd =>
    obtain ⟨fd, conn, hpc, rfl⟩ := act_addFd hs
    have hheld : s.held = some (fd, conn) := by simp [State.held, hpc]
    rcases hshape.addFd fd conn with ⟨-, slot, -, hadd⟩ | ⟨-, hadd⟩
    · rw [hadd]
      exact h.closing (fun _ _ hc => (Table.of_lookup_erase hc).2) rfl rfl hheld.symm (.inl rfl)
    · rw [hadd]
      exact h.closing (fun _ _ hc => hc) rfl rfl hheld.symm
        (.inl (leaving_addFd hshape ⟨fd, conn, ⟨false, false⟩⟩))
  | netAccept =>
    obtain ⟨fd, conn, t, hpc, ht, rfl⟩ := act_netAccept hs
    have hheld : s.held = some (fd, conn) := by simp [State.held, hpc]
    obtain ⟨hlt, hsame, hold⟩ := h.held fd conn hheld
    obtain ⟨persons, fault, rfl, hf, hnew, hother, -⟩ := netAccept_spec ht
    have hroom : fd < s.persons.length + HOLDER_MIN_ALLOC_FDS := by
      simpa [Ordered, hheld] using hord
    have hself := hnew ((hf hroom).trans hfault)
    refine ⟨fun fd' conn' hc _ => ?_, nofun, fun fd' p hp => ?_⟩
    · by_cases he : fd' = fd
      · subst he
        cases hsame conn' hc
        exact .inl hself
      · have hno : ∀ c, s.held ≠ some (fd', c) := by
          intro c hh
          rw [hheld] at hh
          cases hh
          exact he rfl
        rcases h.person fd' conn' hc hno with hk | hl
        · exact .inl ((hother fd' he).trans hk)
        · exact .inr hl
    · by_cases he : fd' = fd
      · subst he
        cases hself.symm.trans hp
        exact hlt
      · exact h.old fd' p ((hother fd' he).symm.trans hp)
  | poll revents =>
    obtain ⟨hpc, -, pc, rfl, -⟩ := act_poll hs
    refine h.closing (fun _ _ hc => hc) rfl rfl rfl (.inr (leaving_of_ne fun i hi => ?_))
    rw [hpc] at hi; cases hi
  | scan request =>
    obtain ⟨i, hpc, hcase⟩ := act_scan hs
    have hleaving : s.leaving = none := leaving_of_ne fun j hj => by rw [hpc] at hj; cases hj
    rcases hcase with ⟨-, rfl⟩ | ⟨e, -, ⟨-, rfl⟩ | ⟨-, rfl⟩⟩
    · exact h.closing (fun _ _ hc => hc) rfl rfl rfl (.inr hleaving)
    · exact h.closing (fun _ _ hc => hc) rfl rfl rfl (.inr hleaving)
    · rcases netRead_spec s e request with ⟨_, _, -, -, -, hr⟩ | ⟨-, hr⟩
      · rw [hr]
        exact h.closing (fun _ _ hc => hc) rfl rfl rfl (.inr hleaving)
      · rw [hr]
        exact h.closing (fun _ _ hc => (Table.of_lookup_erase hc).2) rfl rfl rfl (.inr hleaving)
  | check =>
    obtain ⟨i, e, hpc, he, hcase⟩ := act_check hs
    have hleaving : s.leaving = none := leaving_of_ne fun j hj => by rw [hpc] at hj; cases hj
    rcases hcase with ⟨t, ht, rfl⟩ | rfl
    · -- the person goes, and the entry's descriptor is being left from here on
      obtain ⟨persons, fault, rfl, -, -, hother, hself, -⟩ := netDiscon_spec ht
      have hsub : ∀ fd p, State.person { s with persons := persons, fault := fault } fd = some p →
          s.person fd = some p := by
        intro fd p hp
        by_cases hne : fd = e.fd
        · rw [hne, hself] at hp; cases hp
        · exact (hother fd hne).symm.trans hp
      refine ⟨fun fd conn hc hno => ?_, fun fd conn hc => ?_, fun fd p hp => h.old fd p (hsub fd p hp)⟩
      · by_cases hne : fd = e.fd
        · right
          simp [State.leaving, he, hne]
        · rcases h.person fd conn hc hno with hk | hl
          · exact .inl ((hother fd hne).trans hk)
          · rw [hleaving] at hl; cases hl
      · obtain ⟨hlt, hsame, hold⟩ := h.held fd conn hc
        exact ⟨hlt, hsame, fun fd' p hp => hold fd' p (hsub fd' p hp)⟩
    · exact h.closing (fun _ _ hc => hc) rfl rfl rfl (.inr hleaving)
  | close =>
    obtain ⟨i, e, hpc, he, rfl⟩ := act_close hs
    have hleaving : s.leaving = some e.fd := by simp [State.leaving, hpc, he]
    refine ⟨fun fd conn hc hno => ?_, fun fd conn hc => ?_, h.old⟩
    · obtain ⟨hne, hc⟩ := Table.of_lookup_erase hc
      rcases h.person fd conn hc hno with hk | hl
      · exact .inl hk
      · rw [hleaving] at hl
        cases hl
        exact absurd rfl hne
    · obtain ⟨hlt, hsame, hold⟩ := h.held fd conn hc
      exact ⟨hlt, fun c hcc => hsame c (Table.of_lookup_erase hcc).2, hold⟩
  | job k err =>
    obtain ⟨job, -, rfl⟩ := act_job hs
    cases err with
    | false => exact h.closing (fun _ _ hc => hc) rfl rfl rfl (.inl rfl)
    | true =>
      exact h.closing (fun _ _ hc => (Table.of_lookup_erase hc).2) rfl rfl rfl (.inl rfl)

theorem reachable_known (h : (pollNet.restrict fun s a => Ordered s a).Reachable s) : Shape s ∧ Known s := by
  refine h.invariant (I := fun s => Shape s ∧ Known s) (fun s h0 => ?_) fun s a s' hi hs => ?_
  · rw [show s = init from h0]
    exact ⟨init_shape, init_known⟩
  · exact ⟨step_shape hi.1 hs.1, step_known hi.1 hi.2 hs.1 hs.2⟩

/-- Where a read in an ordered run has come to. The connection's person is there
exactly when the accept thread is not between `accept` and `net_accept` with its
descriptor; then a request that is well formed is taken and the connection stays
open. -/
theorem reading_iff (h : (pollNet.restrict fun s a => Ordered s a).Reachable s) {e : PollFd} {conn : Conn}
    (hread : s.reading = some e) (hopen : s.files.lookup e.fd = some conn) :
    (s.person e.fd = some ⟨e.fd, conn⟩ ↔ ∀ c, s.held ≠ some (e.fd, c)) ∧
      (s.person e.fd = some ⟨e.fd, conn⟩ → ∀ s', step s (.scan true) = some s' →
        s'.files = s.files ∧ s'.jobs = s.jobs ++ [⟨e.fd, conn⟩]) := by
  obtain ⟨-, hknown⟩ := reachable_known h
  refine ⟨⟨fun hp c hheld => ?_, fun hno => ?_⟩, fun hp s' hs => ?_⟩
  · obtain ⟨-, hsame, hold⟩ := hknown.held e.fd c hheld
    have hlt := hold e.fd _ hp
    rw [hsame conn hopen] at hlt
    exact lt_irrefl _ hlt
  · rcases hknown.person e.fd conn hopen hno with hk | hl
    · exact hk
    · rw [leaving_of_ne fun i hi => ?_] at hl
      · cases hl
      · simp [State.reading, hi] at hread
  · obtain ⟨-, hs⟩ := step_act hs
    obtain ⟨i, rfl⟩ := act_reading hs hread
    rcases netRead_spec s e true with ⟨p, c, -, hp', hc, hr⟩ | ⟨hno, -⟩
    · rw [hp] at hp'
      rw [hopen] at hc
      cases hp'
      cases hc
      rw [hr]
      exact ⟨rfl, rfl⟩
    · rcases hno rfl with hno | hno
      · rw [hp] at hno; cases hno
      · rw [hopen] at hno; cases hno

set_option maxRecDepth 4000 in
/-- A read that finds its person. -/
theorem reading_iff_served : ∃ s, (pollNet.restrict fun s a => Ordered s a).Reachable s ∧
    s.reading = some ⟨5, 0, ⟨true, false⟩⟩ ∧ s.person 5 = some ⟨5, 0⟩ := by
  obtain ⟨s, hs, hread, hopen, hheld⟩ : ∃ s, LTS.exec step Ordered init
      [.accept 5, .addFd, .netAccept, .poll [⟨true, false⟩]] = some s ∧
      s.reading = some ⟨5, 0, ⟨true, false⟩⟩ ∧ s.files.lookup 5 = some 0 ∧ s.held = none :=
    ⟨_, rfl, rfl, rfl, rfl⟩
  have h : (pollNet.restrict fun s a => Ordered s a).Reachable s := .exec (.init rfl) hs
  refine ⟨s, h, hread, (reading_iff h hread hopen).1.2 fun c hc => ?_⟩
  rw [hheld] at hc; cases hc

set_option maxRecDepth 4000 in
/-- A client whose request arrives between the accept thread's two steps: the
request is there, no person is, and the read closes the connection. -/
theorem reading_missed : ∃ s s', pollNet.Reachable s ∧ s.reading = some ⟨5, 0, ⟨true, false⟩⟩ ∧
    s.files.lookup 5 = some 0 ∧ s.person 5 = none ∧
    step s (.scan true) = some s' ∧ s'.files.lookup 5 = none ∧ s'.jobs = [] := by
  obtain ⟨s, hs, hrest⟩ : ∃ s, LTS.exec step (fun _ _ => true) init
      [.accept 5, .addFd, .poll [⟨true, false⟩]] = some s ∧
      s.reading = some ⟨5, 0, ⟨true, false⟩⟩ ∧ s.files.lookup 5 = some 0 ∧ s.person 5 = none ∧
      ∃ s', step s (.scan true) = some s' ∧ s'.files.lookup 5 = none ∧ s'.jobs = [] :=
    ⟨_, rfl, rfl, rfl, rfl, _, rfl, rfl, rfl⟩
  obtain ⟨hread, hopen, hperson, s', hs', hclosed, hjobs⟩ := hrest
  exact ⟨s, s', .of_restrict (.exec (.init rfl) hs), hread, hopen, hperson, hs', hclosed, hjobs⟩

/-! ## The poll set is sound

Each entry is for a connection that is open under the entry's descriptor. Descriptors are
used again by the kernel, so that an entry whose connection was closed elsewhere comes to
stand for somebody else's. -/

/-- The descriptor of each entry and the connection it was added for. -/
def State.entries (s : State) : List (Fd × Conn) := s.polled.map fun e => (e.fd, e.conn)

structure Sound (s : State) : Prop where
  /-- each entry refers to the open connection it was added for -/
  entries : ∀ x ∈ s.entries, s.files.lookup x.1 = some x.2
  distinct : (s.entries.map Prod.fst).Nodup
  /-- every close by `net_read`, `net_job` or the poll thread hits what it was meant for -/
  aimed : ∀ x ∈ s.closes, x.closer ≠ .addFd → x.hit = some x.meant
  once : (s.closes.map Close.meant).Nodup

/-- The steps that close no polled connection but by taking its entry away: a
read finds a person and a well-formed request, no job takes its error exit, and
an entry is refused at the limit only where the slot past the end names no polled
descriptor. -/
def Clean (s : State) : Act → Bool
  | .scan request => s.reading.all fun e => request && (s.person e.fd).isSome
  | .job _ err => !err
  | .addFd => s.nfds + 1 ≠ RLIMIT_NOFILE ||
      (s.fds[s.nfds]?).all fun slot => decide (slot.fd ∉ s.entries.map Prod.fst)
  | _ => true

/-- The invariant of clean runs. -/
structure Kept (s : State) : Prop extends Sound s where
  single : (s.entries.map Prod.snd).Nodup
  old : ∀ c ∈ s.entries.map Prod.snd ++ s.closes.map Close.meant, c < s.conns
  gone : ∀ x ∈ s.closes, x.meant ∉ s.entries.map Prod.snd
  accepted : ∀ fd c, s.accept = .accepted fd c → c < s.conns ∧ s.files.lookup fd = some c ∧
    fd ∉ s.entries.map Prod.fst ∧ c ∉ s.entries.map Prod.snd ++ s.closes.map Close.meant
  persons : ∀ fd p, s.person fd = some p → p.fd = fd
  jobs : ∀ j ∈ s.jobs, (∃ p, s.person j.fd = some p) ∧ j.fd ∈ s.entries.map Prod.fst
  leaving : ∀ fd, s.leaving = some fd → ∀ j ∈ s.jobs, j.fd ≠ fd

theorem init_kept : Kept init where
  entries x h := by cases h
  distinct := List.nodup_nil
  aimed x h := by cases h
  once := List.nodup_nil
  single := List.nodup_nil
  old c h := by cases h
  gone x h := by cases h
  accepted fd c h := by cases h
  persons fd p h := by simp [State.person, init] at h
  jobs j h := by cases h
  leaving fd h := by cases h

/-! ### Steps on the entries

What adding, polling and taking out do to the list of entries, whatever the slots. -/

theorem entries_addFd (h : Shape s) (e : PollFd) :
    State.entries { s with fds := s.fds.set s.nfds e, nfds := s.nfds + 1 } =
      s.entries ++ [(e.fd, e.conn)] := by
  simp only [State.entries, State.polled]
  rw [take_set_length h.lt_length, List.map_append, List.map_singleton]

theorem entries_poll (h : Shape s) {revents : List Revents} (hlen : revents.length = s.nfds)
    (pc : PollPc) :
    State.entries { s with
      fds := s.polled.zipWith (fun e r => { e with revents := r }) revents ++ s.fds.drop s.nfds,
      poll := pc } = s.entries := by
  have hpolled : s.polled.length = s.nfds := List.length_take_of_le h.lt_length.le
  unfold State.entries
  rw [State.polled, List.take_left' (by rw [List.length_zipWith, hpolled, hlen, Nat.min_self]),
    List.map_zipWith]
  refine List.ext_getElem (by simp [hpolled, hlen]) fun i h1 h2 => ?_
  simp

theorem entries_close (h : Shape s) {i : Nat} {e : PollFd} (hi : i < s.nfds)
    (he : s.fds[i]? = some e) {closer : Closer} {meant : Conn} {fd : Fd} {pc : PollPc} :
    ∃ as bs, s.entries = as ++ (e.fd, e.conn) :: bs ∧
      State.entries { closeFd s closer meant fd with
        fds := removeAt s.fds s.nfds i, nfds := s.nfds - 1, poll := pc } = as ++ bs := by
  have hget : s.polled[i]? = some e := by rw [State.polled, List.getElem?_take_of_lt hi, he]
  obtain ⟨as, bs, hsplit, hlen⟩ := split_at hget
  refine ⟨as.map fun e => (e.fd, e.conn), bs.map fun e => (e.fd, e.conn), ?_, ?_⟩
  · rw [State.entries, hsplit, List.map_append, List.map_cons]
  · unfold State.entries
    rw [State.polled, take_removeAt hi h.lt_length.le, ← hlen, ← List.map_append]
    exact congrArg _ ((congrArg (List.eraseIdx · _) hsplit).trans (eraseIdx_middle ..))

/-- A step that touches neither the entries nor the kernel's descriptors. -/
theorem Kept.quiet (h : Kept s) (hfiles : s'.files = s.files) (hentries : s'.entries = s.entries)
    (hcloses : s'.closes = s.closes) (hconns : s'.conns = s.conns)
    (haccept : ∀ fd c, s'.accept = .accepted fd c → s.accept = .accepted fd c)
    (hpersons : ∀ fd p, s'.person fd = some p → p.fd = fd)
    (hjobs : ∀ j ∈ s'.jobs, (∃ p, s'.person j.fd = some p) ∧ j.fd ∈ s.entries.map Prod.fst)
    (hleaving : ∀ fd, s'.leaving = some fd → ∀ j ∈ s'.jobs, j.fd ≠ fd) : Kept s' where
  entries := by rw [hentries, hfiles]; exact h.entries
  distinct := by rw [hentries]; exact h.distinct
  aimed := by rw [hcloses]; exact h.aimed
  once := by rw [hcloses]; exact h.once
  single := by rw [hentries]; exact h.single
  old := by rw [hentries, hcloses, hconns]; exact h.old
  gone := by rw [hentries, hcloses]; exact h.gone
  accepted fd c hc := by
    rw [hentries, hcloses, hconns, hfiles]
    exact h.accepted fd c (haccept fd c hc)
  persons := hpersons
  jobs := by rw [hentries]; exact hjobs
  leaving := hleaving

theorem reading_mem {e : PollFd} (h : s.reading = some e) : (e.fd, e.conn) ∈ s.entries := by
  unfold State.reading at h
  split at h
  · rw [Option.filter_eq_some_iff] at h
    exact List.mem_map.2 ⟨e, List.mem_of_getElem? h.1, rfl⟩
  · cases h

/-- The accept thread's new entry. -/
theorem Kept.append (h : Kept s) {fd : Fd} {conn : Conn} (hpc : s.accept = .accepted fd conn)
    (hentries : s'.entries = s.entries ++ [(fd, conn)]) (hfiles : s'.files = s.files)
    (hcloses : s'.closes = s.closes) (hconns : s'.conns = s.conns)
    (haccept : s'.accept = .added fd conn) (hperson : s'.person = s.person)
    (hjobs : s'.jobs = s.jobs) (hleaving : s'.leaving = s.leaving) : Kept s' := by
  obtain ⟨hlt, hopen, hfd, hconn⟩ := h.accepted fd conn hpc
  rw [List.mem_append, not_or] at hconn
  have hmap : ∀ {α} (f : Fd × Conn → α), s'.entries.map f = s.entries.map f ++ [f (fd, conn)] :=
    fun f => by rw [hentries, List.map_append, List.map_singleton]
  constructor
  · constructor
    · intro x hx
      rw [hfiles]
      rw [hentries, List.mem_append, List.mem_singleton] at hx
      rcases hx with hx | hx
      · exact h.entries x hx
      · rw [hx]
        exact hopen
    · rw [hmap]
      exact nodup_snoc h.distinct hfd
    · rw [hcloses]
      exact h.aimed
    · rw [hcloses]
      exact h.once
  · rw [hmap]
    exact nodup_snoc h.single hconn.1
  · intro c hc
    rw [hmap, hcloses, List.append_assoc, List.mem_append, List.mem_append,
      List.mem_singleton] at hc
    rw [hconns]
    rcases hc with hc | hc | hc
    · exact h.old c (List.mem_append_left _ hc)
    · rw [hc]
      exact hlt
    · exact h.old c (List.mem_append_right _ hc)
  · intro x hx
    rw [hcloses] at hx
    rw [hmap, List.mem_append, List.mem_singleton, not_or]
    refine ⟨h.gone x hx, fun he => hconn.2 ?_⟩
    rw [← show x.meant = conn from he]
    exact List.mem_map.2 ⟨x, hx, rfl⟩
  · intro fd' c hc
    rw [haccept] at hc; cases hc
  · rw [hperson]
    exact h.persons
  · intro j hj
    rw [hjobs] at hj
    obtain ⟨hp, hm⟩ := h.jobs j hj
    rw [hperson, hmap]
    exact ⟨hp, List.mem_append_left _ hm⟩
  · rw [hleaving, hjobs]
    exact h.leaving

/-- The record of one more `close`. -/
theorem Kept.closed (h : Kept s) {x : Close} (hx : x.meant ∉ s.closes.map Close.meant)
    (haimed : x.closer ≠ .addFd → x.hit = some x.meant) :
    (∀ y ∈ s.closes ++ [x], y.closer ≠ .addFd → y.hit = some y.meant) ∧
      ((s.closes ++ [x]).map Close.meant).Nodup := by
  constructor
  · intro y hy
    rcases List.mem_append.1 hy with hy | hy
    · exact h.aimed y hy
    · rw [List.mem_singleton.1 hy]
      exact haimed
  · rw [List.map_append, List.map_singleton]
    exact nodup_snoc h.once hx

/-- An entry refused at the limit. -/
theorem Kept.refuse (h : Kept s) {fd fd' : Fd} {conn : Conn} (hpc : s.accept = .accepted fd conn)
    (hfree : fd' ∉ s.entries.map Prod.fst) :
    Kept { closeFd s .addFd conn fd' with accept := .added fd conn } := by
  obtain ⟨hlt, -, -, hconn⟩ := h.accepted fd conn hpc
  rw [List.mem_append, not_or] at hconn
  obtain ⟨haimed, honce⟩ := h.closed (x := ⟨.addFd, conn, s.files.lookup fd'⟩) hconn.2
    fun hne => absurd rfl hne
  refine { h with
    entries := fun x hx => ?_
    aimed := haimed
    once := honce
    old := fun c hc => ?_
    gone := fun x hx => ?_
    accepted := nofun }
  · have hne : x.1 ≠ fd' := fun he => hfree (List.mem_map.2 ⟨x, hx, he⟩)
    exact (AList.lookup_erase_ne hne).trans (h.entries x hx)
  · rcases List.mem_append.1 hc with hc | hc
    · exact h.old c (List.mem_append_left _ hc)
    · obtain ⟨x, hx, rfl⟩ := List.mem_map.1 hc
      rcases List.mem_append.1 hx with hx | hx
      · exact h.old _ (List.mem_append_right _ (List.mem_map.2 ⟨x, hx, rfl⟩))
      · rw [List.mem_singleton.1 hx]
        exact hlt
  · rcases List.mem_append.1 hx with hx | hx
    · exact h.gone x hx
    · rw [List.mem_singleton.1 hx]
      exact hconn.1

/-- The poll thread closes an entry's descriptor and takes the entry away. -/
theorem Kept.remove (h : Kept s) {fds : List PollFd} {nfds i : Nat} {x : Fd × Conn}
    {as bs : List (Fd × Conn)} (hsplit : s.entries = as ++ x :: bs)
    (hrest : State.entries { closeFd s .pollThread x.2 x.1 with
      fds := fds, nfds := nfds, poll := .scan i } = as ++ bs)
    (hleaving : s.leaving = some x.1) :
    Kept { closeFd s .pollThread x.2 x.1 with fds := fds, nfds := nfds, poll := .scan i } := by
  have hx : x ∈ s.entries := by rw [hsplit]; simp
  have hsub : ∀ y, y ∈ as ++ bs → y ∈ s.entries := by
    intro y hy
    rw [hsplit]
    simp only [List.mem_append, List.mem_cons] at hy ⊢
    tauto
  have hsubmap : ∀ (f : Fd × Conn → Nat) a, a ∈ (as ++ bs).map f → a ∈ s.entries.map f :=
    fun f a ha => by
      obtain ⟨y, hy, he⟩ := List.mem_map.1 ha
      exact List.mem_map.2 ⟨y, hsub y hy, he⟩
  have hparts : ∀ f : Fd × Conn → Nat, (s.entries.map f).Nodup →
      ((as ++ bs).map f).Nodup ∧ f x ∉ (as ++ bs).map f := by
    intro f hnd
    rw [hsplit, List.map_append, List.map_cons, List.nodup_middle, List.nodup_cons] at hnd
    rw [List.map_append]
    exact ⟨hnd.2, hnd.1⟩
  obtain ⟨hfst, hnew⟩ := hparts Prod.fst h.distinct
  obtain ⟨hsnd, hlast⟩ := hparts Prod.snd h.single
  have hgone : x.2 ∉ s.closes.map Close.meant := by
    intro hm
    obtain ⟨y, hy, he⟩ := List.mem_map.1 hm
    exact h.gone y hy (he ▸ List.mem_map.2 ⟨x, hx, rfl⟩)
  obtain ⟨haimed, honce⟩ := h.closed (x := ⟨.pollThread, x.2, s.files.lookup x.1⟩) hgone
    fun _ => h.entries x hx
  constructor
  · refine ⟨fun y hy => ?_, hrest ▸ hfst, haimed, honce⟩
    rw [hrest] at hy
    have hne : y.1 ≠ x.1 := fun he => hnew (List.mem_map.2 ⟨y, hy, he⟩)
    exact (AList.lookup_erase_ne hne).trans (h.entries y (hsub y hy))
  · exact hrest ▸ hsnd
  · intro c hc
    rw [hrest] at hc
    rcases List.mem_append.1 hc with hc | hc
    · exact h.old c (List.mem_append_left _ (hsubmap _ c hc))
    · obtain ⟨y, hy, rfl⟩ := List.mem_map.1 hc
      rcases List.mem_append.1 hy with hy | hy
      · exact h.old _ (List.mem_append_right _ (List.mem_map.2 ⟨y, hy, rfl⟩))
      · rw [List.mem_singleton.1 hy]
        exact h.old _ (List.mem_append_left _ (List.mem_map.2 ⟨x, hx, rfl⟩))
  · intro y hy
    rw [hrest]
    rcases List.mem_append.1 hy with hy | hy
    · exact fun hm => h.gone y hy (hsubmap _ _ hm)
    · rw [List.mem_singleton.1 hy]
      exact hlast
  · intro fd c hc
    obtain ⟨hlt, hopen, hfd, hconn⟩ := h.accepted fd c hc
    rw [hrest]
    have hne : fd ≠ x.1 := fun he => hfd (he ▸ List.mem_map.2 ⟨x, hx, rfl⟩)
    refine ⟨hlt, (AList.lookup_erase_ne hne).trans hopen, fun hm => hfd (hsubmap _ _ hm), ?_⟩
    rw [List.mem_append, not_or] at hconn ⊢
    refine ⟨fun hm => hconn.1 (hsubmap _ _ hm), fun hm => ?_⟩
    obtain ⟨y, hy, he⟩ := List.mem_map.1 hm
    rcases List.mem_append.1 hy with hy | hy
    · exact hconn.2 (List.mem_map.2 ⟨y, hy, he⟩)
    · rw [List.mem_singleton.1 hy] at he
      exact hconn.1 (he ▸ List.mem_map.2 ⟨x, hx, rfl⟩)
  · exact h.persons
  · intro j hj
    obtain ⟨hp, hm⟩ := h.jobs j hj
    refine ⟨hp, ?_⟩
    rw [hrest]
    rw [hsplit] at hm
    have hne := h.leaving x.1 hleaving j hj
    simp only [List.map_append, List.map_cons, List.mem_append, List.mem_cons] at hm ⊢
    tauto
  · exact nofun

/-- One step of a clean run. -/
theorem step_kept {a : Act} (hshape : Shape s) (h : Kept s) (hs : step s a = some s')
    (hclean : Clean s a = true) : Kept s' := by
  obtain ⟨-, hs⟩ := step_act hs
  cases a with
  | accept fd =>
    obtain ⟨-, hnone, rfl⟩ := act_accept hs
    have hne : ∀ x ∈ s.entries, x.1 ≠ fd := by
      intro x hx he
      have hx' := h.entries x hx
      rw [he, hnone] at hx'; cases hx'
    refine { h with
      entries := fun x hx => ?_
      old := fun c hc => Nat.lt_succ_of_lt (h.old c hc)
      accepted := fun fd' c hc => ?_ }
    · rw [Table.lookup_insert_if, if_neg (hne x hx)]
      exact h.entries x hx
    · cases hc
      refine ⟨Nat.lt_succ_self _, by rw [Table.lookup_insert_if, if_pos rfl], fun hm => ?_,
        fun hm => lt_irrefl _ (h.old _ hm)⟩
      obtain ⟨x, hx, he⟩ := List.mem_map.1 hm
      exact hne x hx he
  | addFd =>
    obtain ⟨fd, conn, hpc, rfl⟩ := act_addFd hs
    rcases hshape.addFd fd conn with ⟨hlim, slot, hslot, hadd⟩ | ⟨-, hadd⟩
    · have hslot' : slot.fd ∉ s.entries.map Prod.fst := by
        simpa [Clean, hlim, hslot] using hclean
      rw [hadd]
      exact h.refuse hpc hslot'
    · rw [hadd]
      exact h.append hpc (entries_addFd hshape ⟨fd, conn, ⟨false, false⟩⟩) rfl rfl rfl rfl rfl rfl
        (leaving_addFd hshape ⟨fd, conn, ⟨false, false⟩⟩)
  | netAccept =>
    obtain ⟨fd, conn, t, hpc, ht, rfl⟩ := act_netAccept hs
    obtain ⟨persons, fault, rfl, -, -, hother, hself, hidle⟩ := netAccept_spec ht
    refine h.quiet rfl rfl rfl rfl nofun (fun fd' p hp => ?_) (fun j hj => ?_) h.leaving
    · by_cases he : fd' = fd
      · subst he
        rcases hself with hno | hnew
        · cases hno.symm.trans hp
        · cases hnew.symm.trans hp
          rfl
      · exact h.persons fd' p ((hother fd' he).symm.trans hp)
    · obtain ⟨⟨p, hp⟩, hm⟩ := h.jobs j hj
      refine ⟨⟨p, (hother j.fd fun he => ?_).trans hp⟩, hm⟩
      rcases hidle with hno | hno
      · rw [hno] at hj; cases hj
      · rw [← he, hp] at hno; cases hno
  | poll revents =>
    obtain ⟨hpc, hlen, pc, rfl, hpc'⟩ := act_poll hs
    refine h.quiet rfl (entries_poll hshape hlen pc) rfl rfl (fun _ _ => id) h.persons h.jobs
      fun fd hl => ?_
    rw [leaving_of_ne fun i hi => ?_] at hl
    · cases hl
    · rcases hpc' with rfl | rfl <;> cases hi
  | scan request =>
    obtain ⟨i, hpc, hcase⟩ := act_scan hs
    rcases hcase with ⟨-, rfl⟩ | ⟨e, -, ⟨-, rfl⟩ | ⟨hread, rfl⟩⟩
    · exact h.quiet rfl rfl rfl rfl (fun _ _ => id) h.persons h.jobs nofun
    · exact h.quiet rfl rfl rfl rfl (fun _ _ => id) h.persons h.jobs nofun
    · have hmem := reading_mem hread
      obtain ⟨rfl, hperson⟩ : request = true ∧ (s.person e.fd).isSome = true := by
        simpa [Clean, hread] using hclean
      rcases netRead_spec s e true with ⟨p, c, -, hp, -, hr⟩ | ⟨hno, -⟩
      · rw [hr]
        refine h.quiet rfl rfl rfl rfl (fun _ _ => id) h.persons (fun j hj => ?_) nofun
        rcases List.mem_append.1 hj with hj | hj
        · exact h.jobs j hj
        · rw [List.mem_singleton.1 hj, h.persons e.fd p hp]
          exact ⟨⟨p, hp⟩, List.mem_map.2 ⟨_, hmem, rfl⟩⟩
      · exfalso
        rcases hno rfl with hno | hno
        · rw [hno] at hperson; cases hperson
        · have := h.entries _ hmem
          rw [hno] at this; cases this
  | check =>
    obtain ⟨i, e, hpc, he, ⟨t, ht, rfl⟩ | rfl⟩ := act_check hs
    · obtain ⟨persons, fault, rfl, -, -, hother, hself, hidle⟩ := netDiscon_spec ht
      -- no job is left on the descriptor: the pool is idle, or the person was gone before
      have hfree : ∀ j ∈ s.jobs, j.fd ≠ e.fd := by
        intro j hj hje
        obtain ⟨⟨p, hp⟩, -⟩ := h.jobs j hj
        rcases hidle with hno | hno
        · rw [hno] at hj; cases hj
        · rw [← hje, hp] at hno; cases hno
      refine h.quiet rfl rfl rfl rfl (fun _ _ => id) (fun fd p hp => ?_) (fun j hj => ?_)
        fun fd hl => ?_
      · by_cases hne : fd = e.fd
        · rw [hne] at hp
          cases hself.symm.trans hp
        · exact h.persons fd p ((hother fd hne).symm.trans hp)
      · obtain ⟨⟨p, hp⟩, hm⟩ := h.jobs j hj
        exact ⟨⟨p, (hother j.fd (hfree j hj)).trans hp⟩, hm⟩
      · have : some e.fd = some fd := by simpa [State.leaving, he] using hl
        cases this
        exact hfree
    · exact h.quiet rfl rfl rfl rfl (fun _ _ => id) h.persons h.jobs nofun
  | close =>
    obtain ⟨i, e, hpc, he, rfl⟩ := act_close hs
    obtain ⟨as, bs, hsplit, hrest⟩ := entries_close hshape (hshape.index i (.inr hpc)) he
    exact h.remove hsplit hrest (by simp [State.leaving, hpc, he])
  | job k err =>
    obtain ⟨job, -, rfl⟩ := act_job hs
    cases err with
    | true => cases hclean
    | false =>
      exact h.quiet rfl rfl rfl rfl (fun _ _ => id) h.persons
        (fun j hj => h.jobs j (List.mem_of_mem_eraseIdx hj))
        fun fd hl j hj => h.leaving fd hl j (List.mem_of_mem_eraseIdx hj)

theorem reachable_kept (h : (pollNet.restrict fun s a => Clean s a).Reachable s) :
    Shape s ∧ Kept s := by
  refine h.invariant (I := fun s => Shape s ∧ Kept s) (fun s h0 => ?_) fun s a s' hi hs => ?_
  · rw [show s = init from h0]
    exact ⟨init_shape, init_kept⟩
  · exact ⟨step_shape hi.1 hs.1, step_kept hi.1 hi.2 hs.1 hs.2⟩

/-- A close of a polled descriptor that leaves its entry in place. -/
theorem Sound.not_erased (h : Sound s') {fd : Fd} (hfd : fd ∈ s.entries.map Prod.fst)
    (hentries : s'.entries = s.entries) (hfiles : s'.files = s.files.erase fd) : False := by
  obtain ⟨x, hx, rfl⟩ := List.mem_map.1 hfd
  have hx' := h.entries x (hentries ▸ hx)
  rw [hfiles, AList.lookup_erase] at hx'
  cases hx'

end FfiRpc.Poll
