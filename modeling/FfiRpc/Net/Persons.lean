import FfiRpc.Core.LTS
import FfiRpc.Net.Tables

/-!
# The table of persons and their requests

The table `RN_persons` that all ports share, indexed by descriptor, with the queue
of requests of each person (rpc_network.c:117-174, 208-230 and 253-261).

* The requests are numbered as `rpc_net_recv` returns them. Each is in a queue, was
  handed out by `rpc_net_person_get_request` or freed by `net_discon`; one that is
  in none of these is lost.
* A notifier, if there is one, may call `rpc_net_person_get_request` any number of
  times (`gets`), in `notify` as in `persondata_destroy`. Other holders of the
  person may call it between two steps.
* An access outside the table is undefined behaviour: the run ends (`fault`).

Results: what `net_discon` frees (`drain_eq`), when it loses nothing
(`accounted_iff`), when the table is left alone outside its bounds
(`in_bounds_iff`).
-/
namespace FfiRpc.Persons

abbrev Req := Nat

/-- `struct _rpc_net_person` without its ID -/
structure Person where
  fd : Fd
  queue : List Req
  deriving DecidableEq

/-- `persons` is `RN_persons`, of `RN_alloced_personsfd` elements. -/
structure State where
  persons : List (Option Person)
  received : Nat
  handed : List Req
  freed : List Req
  fault : Bool
  deriving DecidableEq

def init : State := ⟨[], 0, [], [], false⟩

/-! ## The queue -/

/-- rpc_network.c:253-261 -/
def rpcNetPersonGetRequest : List Req → Option Req × List Req
  | [] => (none, [])
  | r :: q => (some r, q)

/-- `n` calls of `rpc_net_person_get_request`: what they return and leave. -/
def getRequests : Nat → List Req → List Req × List Req
  | 0, q => ([], q)
  | n + 1, q =>
    let (r, q) := rpcNetPersonGetRequest q
    let (out, q) := getRequests n q
    (r.toList ++ out, q)

/-- The loop of `net_discon` from index `i`: what it frees and what it leaves. The
bound is the length of the queue at that moment. rpc_network.c:165-167 -/
def drain (i : Nat) : List Req → List Req × List Req
  | [] => ([], [])
  | r :: q =>
    if i < (r :: q).length then
      let (out, q) := drain (i + 1) q
      (r :: out, q)
    else ([], r :: q)

theorem getRequests_eq (n : Nat) (q : List Req) : getRequests n q = (q.take n, q.drop n) := by
  induction n generalizing q with
  | zero => simp [getRequests]
  | succ n ih => cases q <;> simp [getRequests, rpcNetPersonGetRequest, ih]

/-- The loop stops half way. -/
theorem drain_eq (i : Nat) (q : List Req) :
    drain i q = (q.take ((q.length - i + 1) / 2), q.drop ((q.length - i + 1) / 2)) := by
  induction q generalizing i with
  | nil => simp [drain]
  | cons r q ih =>
    unfold drain
    split
    · rename_i hi
      rw [List.length_cons] at hi
      have hhalf : ((r :: q).length - i + 1) / 2 = (q.length - (i + 1) + 1) / 2 + 1 := by
        rw [List.length_cons]
        omega
      rw [hhalf, ih]
      rfl
    · rename_i hi
      have hhalf : ((r :: q).length - i + 1) / 2 = 0 := by omega
      rw [hhalf]
      rfl

theorem drain_append (i : Nat) (q : List Req) : (drain i q).1 ++ (drain i q).2 = q := by
  rw [drain_eq]
  exact List.take_append_drop _ _

theorem drain_rest_nil_iff (q : List Req) : (drain 0 q).2 = [] ↔ q.length ≤ 1 := by
  rw [drain_eq, List.drop_eq_nil_iff]
  omega

theorem getRequests_append (n : Nat) (q : List Req) :
    (getRequests n q).1 ++ (getRequests n q).2 = q := by
  rw [getRequests_eq]
  exact List.take_append_drop _ _

/-! ## The callbacks of the poll net -/

/-- rpc_network.c:157-174 -/
def netDiscon (s : State) (fd : Fd) (gets : Nat) : State :=
  match s.persons[fd]? with
  | none => { s with fault := true }
  | some none => s
  | some (some person) =>
    let (given, queue) := getRequests gets person.queue
    let (freed, _) := drain 0 queue
    { s with
      persons := s.persons.set fd none
      handed := s.handed ++ given
      freed := s.freed ++ freed }

/-- rpc_network.c:127-155 -/
def netAccept (s : State) (fd : Fd) (gets : Nat) : State :=
  let s := { s with persons := makePersonsfdBigger s.persons fd }
  let s := netDiscon s fd gets
  if s.fault then s else { s with persons := s.persons.set fd (some ⟨fd, []⟩) }

/-- `request`: whether `rpc_net_recv` returns one. rpc_network.c:208-230 -/
def netRead (s : State) (fd : Fd) (request : Bool) (gets : Nat) : State :=
  if fd < s.persons.length then
    match s.persons[fd]? with
    | some (some person) =>
      if request then
        let (given, queue) := getRequests gets (person.queue ++ [s.received])
        { s with
          persons := s.persons.set fd (some { person with queue := queue })
          received := s.received + 1
          handed := s.handed ++ given }
      else s
    | _ => s
  else s

inductive Act where
  | accept (fd : Fd) (gets : Nat)
  | read (fd : Fd) (request : Bool) (gets : Nat)
  | discon (fd : Fd) (gets : Nat)
  /-- `rpc_net_person_get_request` between two callbacks -/
  | get (fd : Fd)

def act (s : State) : Act → Option State
  | .accept fd gets => some (netAccept s fd gets)
  | .read fd request gets => some (netRead s fd request gets)
  | .discon fd gets => some (netDiscon s fd gets)
  | .get fd =>
    match s.persons[fd]? with
    | some (some person) =>
      let (given, queue) := rpcNetPersonGetRequest person.queue
      some { s with
        persons := s.persons.set fd (some { person with queue := queue })
        handed := s.handed ++ given.toList }
    | _ => none

def step (s : State) (a : Act) : Option State := if s.fault then none else act s a

def table : LTS State Act := .ofFn (· = init) step

/-! ## The bounds of the table -/

/-- A descriptor is accepted within one growth of the table, and disconnected
within the table. -/
def InTable (s : State) : Act → Bool
  | .accept fd _ => fd < s.persons.length + HOLDER_MIN_ALLOC_FDS
  | .discon fd _ => fd < s.persons.length
  | _ => true

theorem netDiscon_fault {s : State} (h : s.fault = false) (fd gets : Nat) :
    (netDiscon s fd gets).fault = false ↔ fd < s.persons.length := by
  unfold netDiscon
  split
  · rename_i hget
    simpa using List.getElem?_eq_none_iff.1 hget
  · rename_i hget
    exact iff_of_true h (List.getElem?_eq_some_iff.1 hget).1
  · rename_i hget
    exact iff_of_true h (List.getElem?_eq_some_iff.1 hget).1

theorem netAccept_fault {s : State} (h : s.fault = false) (fd gets : Nat) :
    (netAccept s fd gets).fault = false ↔ fd < s.persons.length + HOLDER_MIN_ALLOC_FDS := by
  have hdiscon := netDiscon_fault (s := { s with persons := makePersonsfdBigger s.persons fd }) h
    fd gets
  rw [← lt_length_makePersonsfdBigger, ← hdiscon]
  simp only [netAccept]
  split <;> rfl

theorem netRead_fault (s : State) (fd : Fd) (request : Bool) (gets : Nat) :
    (netRead s fd request gets).fault = s.fault := by
  unfold netRead
  split
  · split
    · split <;> rfl
    · rfl
  · rfl

theorem step_fault {s s' : State} {a : Act} (h : s.fault = false) (hs : step s a = some s') :
    s'.fault = false ↔ InTable s a = true := by
  simp only [step, h, Bool.false_eq_true, if_false] at hs
  cases a with
  | accept fd gets =>
    cases hs
    simp only [InTable, decide_eq_true_eq]
    exact netAccept_fault h fd gets
  | read fd request gets =>
    cases hs
    simp [InTable, netRead_fault, h]
  | discon fd gets =>
    cases hs
    simp only [InTable, decide_eq_true_eq]
    exact netDiscon_fault h fd gets
  | get fd =>
    simp only [act] at hs
    split at hs
    · cases hs
      simp [InTable, h]
    · cases hs

/-- In a run whose descriptors fit, no access is out of bounds, and the first
descriptor that does not fit makes one. Growth keeps the table as it was. -/
theorem in_bounds_iff {s : State} (h : (table.restrict fun s a => InTable s a).Reachable s) :
    (s.fault = false ∧ ∀ a s', step s a = some s' → (s'.fault = false ↔ InTable s a = true)) ∧
      ∀ upTo i, (i < s.persons.length →
          (makePersonsfdBigger s.persons upTo)[i]? = s.persons[i]?) ∧
        (s.persons.length ≤ i → i < (makePersonsfdBigger s.persons upTo).length →
          (makePersonsfdBigger s.persons upTo)[i]? = some none) := by
  have hfault : s.fault = false := by
    refine h.invariant (I := fun s => s.fault = false) (fun s h0 => ?_) fun s a s' hi hs => ?_
    · rw [show s = init from h0]
      rfl
    · exact (step_fault hi hs.1).2 hs.2
  exact ⟨⟨hfault, fun _ _ hs => step_fault hfault hs⟩, makePersonsfdBigger_slot s.persons⟩

set_option maxRecDepth 4000 in
/-- A first client whose descriptor fits, its request and its end. -/
theorem in_bounds_iff_served : ∃ s, (table.restrict fun s a => InTable s a).Reachable s ∧
    s.persons.length = 128 ∧
    ((s.fault = false ∧ ∀ a s', step s a = some s' → (s'.fault = false ↔ InTable s a = true)) ∧
      ∀ upTo i, (i < s.persons.length →
          (makePersonsfdBigger s.persons upTo)[i]? = s.persons[i]?) ∧
        (s.persons.length ≤ i → i < (makePersonsfdBigger s.persons upTo).length →
          (makePersonsfdBigger s.persons upTo)[i]? = some none)) := by
  obtain ⟨s, hs, hlen⟩ : ∃ s, LTS.exec step InTable init
      [.accept 127 0, .read 127 true 1, .discon 127 0] = some s ∧ s.persons.length = 128 :=
    ⟨_, rfl, rfl⟩
  have h : (table.restrict fun s a => InTable s a).Reachable s := .exec (.init rfl) hs
  exact ⟨s, h, hlen, in_bounds_iff h⟩

set_option maxRecDepth 4000 in
/-- A process that holds 128 files accepts its first client: the table grows to 128
elements and the slot of descriptor 128 is read. -/
theorem first_client_out_of_bounds :
    ∃ s, table.Reachable s ∧ s.fault = true ∧ s.persons.length = 128 := by
  have hs : step init (.accept 128 0) = some (netAccept init 128 0) := rfl
  have h0 : table.Reachable init := .init rfl
  exact ⟨netAccept init 128 0, h0.step hs, by decide, by decide⟩

/-! ## The requests -/

def queueOf (slot : Option Person) : List Req :=
  match slot with
  | some person => person.queue
  | none => []

/-- The requests that are queued. -/
def State.queued (s : State) : List Req := s.persons.flatMap queueOf

/-- Each request is handed out, freed or queued, once. -/
def Accounted (s : State) : Prop :=
  (s.handed ++ s.freed ++ s.queued).Perm (List.range s.received)

/-- What `net_discon` finds in the queue after `persondata_destroy`. -/
def pending (s : State) (fd : Fd) (gets : Nat) : List Req :=
  match s.persons[fd]? with
  | some (some person) => (getRequests gets person.queue).2
  | _ => []

/-- At most one request is left when a person is disconnected. -/
def Short (s : State) : Act → Bool
  | .accept fd gets => (pending s fd gets).length ≤ 1
  | .discon fd gets => (pending s fd gets).length ≤ 1
  | _ => true

theorem flatMap_set_perm {l : List (Option Person)} {i : Nat} {x : Option Person}
    (h : l[i]? = some x) (y : Option Person) (given : List Req)
    (hq : queueOf x = given ++ queueOf y) :
    (given ++ (l.set i y).flatMap queueOf).Perm (l.flatMap queueOf) := by
  obtain ⟨as, bs, hsplit, hlen⟩ := split_at h
  subst hlen
  rw [hsplit, set_middle]
  simp only [List.flatMap_append, List.flatMap_cons, hq]
  have hcomm : (given ++ as.flatMap queueOf).Perm (as.flatMap queueOf ++ given) :=
    List.perm_append_comm
  have hswap := hcomm.append_right (queueOf y ++ bs.flatMap queueOf)
  simpa using hswap

/-- A disconnection hands out and frees what it takes from the queue, but for the
rest that the loop leaves. -/
theorem netDiscon_perm (s : State) (fd gets : Nat) :
    ((netDiscon s fd gets).handed ++ (netDiscon s fd gets).freed ++
        (netDiscon s fd gets).queued ++ (drain 0 (pending s fd gets)).2).Perm
      (s.handed ++ s.freed ++ s.queued) ∧
    (netDiscon s fd gets).received = s.received := by
  unfold netDiscon pending
  split
  · rename_i hget
    simp [hget, drain, State.queued]
  · rename_i hget
    simp [hget, drain]
  · rename_i person hget
    refine ⟨List.perm_iff_count.2 fun r => ?_, rfl⟩
    have htaken := congrArg (List.count r) (getRequests_append gets person.queue)
    have hdrained := congrArg (List.count r) (drain_append 0 (getRequests gets person.queue).2)
    have hqueued := (flatMap_set_perm hget none person.queue
      (List.append_nil _).symm).count_eq r
    simp only [hget, State.queued, List.count_append] at htaken hdrained hqueued ⊢
    omega

theorem netDiscon_empties {s : State} {fd gets : Nat} (h : (netDiscon s fd gets).fault = false) :
    (netDiscon s fd gets).persons[fd]? = some none := by
  unfold netDiscon at h ⊢
  split
  · rename_i hget
    simp [hget] at h
  · rename_i hget
    exact hget
  · rename_i person hget
    exact List.getElem?_set_self (List.getElem?_eq_some_iff.1 hget).1

theorem queued_grown (s : State) (fd : Nat) :
    State.queued { s with persons := makePersonsfdBigger s.persons fd } = s.queued := by
  unfold State.queued makePersonsfdBigger
  split
  · simp [queueOf]
  · rfl

theorem pending_grown (s : State) (fd gets : Nat) :
    pending { s with persons := makePersonsfdBigger s.persons fd } fd gets =
      pending s fd gets := by
  obtain ⟨hkept, hnew⟩ := makePersonsfdBigger_slot s.persons fd fd
  unfold pending
  by_cases hfd : fd < s.persons.length
  · rw [hkept hfd]
  · rw [List.getElem?_eq_none (Nat.not_lt.1 hfd)]
    by_cases hlt : fd < (makePersonsfdBigger s.persons fd).length
    · rw [hnew (Nat.not_lt.1 hfd) hlt]
    · rw [List.getElem?_eq_none (Nat.not_lt.1 hlt)]

theorem netAccept_perm (s : State) (fd gets : Nat) :
    ((netAccept s fd gets).handed ++ (netAccept s fd gets).freed ++
        (netAccept s fd gets).queued ++ (drain 0 (pending s fd gets)).2).Perm
      (s.handed ++ s.freed ++ s.queued) ∧
    (netAccept s fd gets).received = s.received := by
  obtain ⟨hperm, hreceived⟩ :=
    netDiscon_perm { s with persons := makePersonsfdBigger s.persons fd } fd gets
  rw [queued_grown, pending_grown] at hperm
  simp only [netAccept]
  split
  · exact ⟨hperm, hreceived⟩
  · rename_i hfault
    refine ⟨?_, hreceived⟩
    -- the slot that gets the new person is empty
    have hslot := netDiscon_empties (Bool.eq_false_iff.2 hfault)
    have hqueued := flatMap_set_perm hslot (some ⟨fd, []⟩) [] rfl
    refine List.Perm.trans ?_ hperm
    simp only [State.queued]
    exact ((hqueued.append_left _).append_right _)

theorem netRead_accounted {s : State} (h : Accounted s) (fd : Nat) (request : Bool) (gets : Nat) :
    Accounted (netRead s fd request gets) := by
  unfold netRead
  split
  · split
    · rename_i person hget
      split
      · refine List.perm_iff_count.2 fun r => ?_
        have hcount := h.count_eq r
        have htaken := congrArg (List.count r)
          (getRequests_append gets (person.queue ++ [s.received]))
        obtain ⟨as, bs, hsplit, hlen⟩ := split_at hget
        subst hlen
        simp only [State.queued, hsplit, set_middle, List.flatMap_append, List.flatMap_cons,
          queueOf, List.range_succ, List.count_append] at hcount htaken ⊢
        omega
      · exact h
    · exact h
  · exact h

theorem get_accounted {s s' : State} {fd : Nat} (h : Accounted s)
    (hs : act s (.get fd) = some s') : Accounted s' := by
  simp only [act] at hs
  split at hs
  · rename_i person hget
    cases hs
    refine List.perm_iff_count.2 fun r => ?_
    have hcount := h.count_eq r
    have hqueued := (flatMap_set_perm hget
      (some { person with queue := (rpcNetPersonGetRequest person.queue).2 })
      (rpcNetPersonGetRequest person.queue).1.toList
      (by cases hq : person.queue <;> simp [queueOf, rpcNetPersonGetRequest, hq])).count_eq r
    simp only [State.queued, List.count_append] at hcount hqueued ⊢
    omega
  · cases hs

theorem accounted_of_perm {s s' : State} {rest : List Req} (h : Accounted s)
    (hperm : (s'.handed ++ s'.freed ++ s'.queued ++ rest).Perm
      (s.handed ++ s.freed ++ s.queued)) (hreceived : s'.received = s.received) :
    Accounted s' ↔ rest = [] := by
  unfold Accounted
  rw [hreceived]
  constructor
  · intro h'
    have hlen := (hperm.trans h).length_eq
    have hlen' := h'.length_eq
    simp only [List.length_append] at hlen hlen'
    apply List.eq_nil_of_length_eq_zero
    omega
  · intro hrest
    subst hrest
    rw [List.append_nil] at hperm
    exact hperm.trans h

theorem step_accounted {s s' : State} {a : Act} (h : Accounted s) (hs : step s a = some s') :
    Accounted s' ↔ Short s a = true := by
  unfold step at hs
  split at hs
  · cases hs
  · cases a with
    | accept fd gets =>
      cases hs
      obtain ⟨hperm, hreceived⟩ := netAccept_perm s fd gets
      rw [accounted_of_perm h hperm hreceived, drain_rest_nil_iff]
      simp [Short]
    | read fd request gets =>
      cases hs
      exact iff_of_true (netRead_accounted h fd request gets) rfl
    | discon fd gets =>
      cases hs
      obtain ⟨hperm, hreceived⟩ := netDiscon_perm s fd gets
      rw [accounted_of_perm h hperm hreceived, drain_rest_nil_iff]
      simp [Short]
    | get fd => exact iff_of_true (get_accounted h hs) rfl

/-- In a run that never disconnects a person with two requests left, every request
is handed out, freed or queued, once; the first such disconnection loses one. -/
theorem accounted_iff {s : State} (h : (table.restrict fun s a => Short s a).Reachable s) :
    Accounted s ∧ ∀ a s', step s a = some s' → (Accounted s' ↔ Short s a = true) := by
  have hacc : Accounted s := by
    refine h.invariant (I := Accounted) (fun s h0 => ?_) fun s a s' hi hs => ?_
    · rw [show s = init from h0]
      exact List.Perm.refl _
    · exact (step_accounted hi hs.1).2 hs.2
  exact ⟨hacc, fun _ _ hs => step_accounted hacc hs⟩

set_option maxRecDepth 4000 in
/-- A request nobody asks for is freed when its person goes. -/
theorem accounted_iff_freed : ∃ s, (table.restrict fun s a => Short s a).Reachable s ∧
    s.handed = [0] ∧ s.freed = [1] ∧ s.received = 2 ∧
    (Accounted s ∧ ∀ a s', step s a = some s' → (Accounted s' ↔ Short s a = true)) := by
  obtain ⟨s, hs, hfields⟩ : ∃ s, LTS.exec step Short init
      [.accept 5 0, .read 5 true 1, .read 5 true 0, .discon 5 0] = some s ∧
      s.handed = [0] ∧ s.freed = [1] ∧ s.received = 2 := ⟨_, rfl, rfl, rfl, rfl⟩
  have h : (table.restrict fun s a => Short s a).Reachable s := .exec (.init rfl) hs
  exact ⟨s, h, hfields.1, hfields.2.1, hfields.2.2, accounted_iff h⟩

set_option maxRecDepth 4000 in
/-- Without a notifier two requests wait when the client goes: one is freed, the
other is neither handed out nor freed nor queued. -/
theorem second_request_lost : ∃ s, table.Reachable s ∧ ¬ Accounted s ∧
    s.received = 2 ∧ s.handed = [] ∧ s.freed = [0] ∧ s.queued = [] := by
  obtain ⟨s, hs, hreceived, hhanded, hfreed, hqueued⟩ :
      ∃ s, LTS.exec step (fun _ _ => true) init
        [.accept 5 0, .read 5 true 0, .read 5 true 0, .discon 5 0] = some s ∧
      s.received = 2 ∧ s.handed = [] ∧ s.freed = [0] ∧ s.queued = [] :=
    ⟨_, rfl, rfl, rfl, rfl, rfl⟩
  refine ⟨s, .of_restrict (.exec (.init rfl) hs), fun hacc => ?_, hreceived, hhanded, hfreed,
    hqueued⟩
  have hlen := hacc.length_eq
  simp [hreceived, hhanded, hfreed, hqueued] at hlen

/-! ## The notifier of the server -/

/-- `message_receiver` asks for as many requests as are queued (rpc_server.c:168-174),
and nobody else asks. -/
def Received (s : State) : Act → Bool
  | .read fd true gets =>
    match s.persons[fd]? with
    | some (some person) => gets == (person.queue ++ [s.received]).length
    | _ => true
  | _ => true

theorem queued_nil_iff (s : State) : s.queued = [] ↔ ∀ slot ∈ s.persons, queueOf slot = [] := by
  unfold State.queued
  exact List.flatMap_eq_nil_iff

theorem pending_nil {s : State} (h : s.queued = []) (fd gets : Nat) : pending s fd gets = [] := by
  unfold pending
  split
  · rename_i person hget
    have hnil : person.queue = [] := (queued_nil_iff s).1 h _ (List.mem_of_getElem? hget)
    simp [hnil, getRequests_eq]
  · rfl

theorem queued_set {s t : State} {fd : Fd} (h : s.queued = []) (slot : Option Person)
    (hslot : queueOf slot = []) (ht : t.persons = s.persons.set fd slot) : t.queued = [] := by
  rw [queued_nil_iff] at h ⊢
  intro x hx
  rw [ht] at hx
  rcases List.mem_or_eq_of_mem_set hx with hx | hx
  · exact h x hx
  · rw [hx, hslot]

theorem netDiscon_queued {s : State} (h : s.queued = []) (fd gets : Nat) :
    (netDiscon s fd gets).queued = [] := by
  unfold netDiscon
  split
  · exact h
  · exact h
  · exact queued_set h none rfl rfl

theorem step_received {s s' : State} {a : Act} (h : s.queued = []) (hs : step s a = some s')
    (hC : Received s a = true) : s'.queued = [] := by
  unfold step at hs
  split at hs
  · cases hs
  · cases a with
    | accept fd gets =>
      cases hs
      have hgrown := netDiscon_queued ((queued_grown s fd).trans h) fd gets
      simp only [netAccept]
      split
      · exact hgrown
      · exact queued_set hgrown (some ⟨fd, []⟩) rfl rfl
    | read fd request gets =>
      cases hs
      unfold netRead
      split
      · split
        · rename_i person hget
          split
          · rename_i hrequest
            subst hrequest
            have hgets : gets = (person.queue ++ [s.received]).length := by
              simpa [Received, hget] using hC
            refine queued_set h (some { person with
              queue := (getRequests gets (person.queue ++ [s.received])).2 }) ?_ rfl
            rw [getRequests_eq, hgets]
            exact List.drop_length
          · exact h
        · exact h
      · exact h
    | discon fd gets =>
      cases hs
      exact netDiscon_queued h fd gets
    | get fd =>
      simp only [act] at hs
      split at hs
      · rename_i person hget
        cases hs
        have hnil : person.queue = [] := (queued_nil_iff s).1 h _ (List.mem_of_getElem? hget)
        exact queued_set h (some { person with
          queue := (rpcNetPersonGetRequest person.queue).2 }) (by rw [hnil]; rfl) rfl
      · cases hs

/-- The server's ports never have a request waiting when a client goes. -/
theorem received_short {s : State} (h : (table.restrict fun s a => Received s a).Reachable s) :
    s.queued = [] ∧ ∀ a, Short s a = true := by
  have hnil : s.queued = [] := by
    refine h.invariant (I := fun s => s.queued = []) (fun s h0 => ?_) fun s a s' hi hs => ?_
    · rw [show s = init from h0]
      rfl
    · exact step_received hi hs.1 hs.2
  refine ⟨hnil, fun a => ?_⟩
  cases a <;> simp [Short, pending_nil hnil]

end FfiRpc.Persons
