import FfiRpc.Core.Lists
import FfiRpc.Core.LTS
import FfiRpc.Net.Stream

/-!
# The replies on one connection

The server's side of a connection whose client sends requests without waiting
(rpc_server.c:168-249, rpc_network.c:176-189). Each request becomes one job
(`message_receiver`); the pool's workers take the jobs first in, first out, but
from there on each runs `net_job` on its own: the handler, then `rpc_net_send`
with its two `send`s, then on the error exits `shutdown` and `close`. Nothing
orders the `send`s of different workers on one descriptor.

Jobs are numbered in the order of their requests, and a job's place in `jobs` is
its number. A `send` on the open connection takes as many bytes as its label says
(`took`, 0 for a failed one); after a close it fails. What a handler answers and
which exit `net_job` takes is arbitrary.

There is one connection, from its `accept` on. No job of an earlier connection with the
same descriptor number is left then: a reply of such a job would go into this one.

`out_inOrder`: the bytes written are the frames of the replies in the order of the
requests, as long as each worker only starts on its frame after all earlier
replies are out, `send`s are not cut and nothing closes the connection in the
middle of a frame. `out_swapped` is a run in which two workers answer in the other
order.
-/
namespace FfiRpc.Jobs

/-- How far a job is. `err`: it goes to one of the error exits; a job that has
done its `send`s keeps the text if all of the frame was taken. -/
inductive Job where
  | queued
  | running
  | replying (text : List UInt8) (err : Bool)
  | midway (text : List UInt8) (err : Bool)
  | closing (reply : Option (List UInt8))
  | done (reply : Option (List UInt8))
  deriving DecidableEq

structure State where
  jobs : List Job
  out : List UInt8
  isOpen : Bool
  deriving DecidableEq

def init : State := ⟨[], [], true⟩

inductive Act where
  /-- a request is read and its job added to the pool -/
  | arrive
  /-- a worker takes job `i` -/
  | take (i : Nat)
  /-- the handler is done; `json_dumps` gives `text`, or `NULL` -/
  | reply (i : Nat) (text : Option (List UInt8)) (err : Bool)
  | sendLen (i : Nat) (took : Nat)
  | sendText (i : Nat) (took : Nat)
  /-- the error exit's `shutdown` and `close` -/
  | close (i : Nat)
  /-- another thread closes the connection -/
  | shut

def Job.active : Job → Bool
  | .queued | .done _ => false
  | _ => true

/-- `send` on the connection. -/
def State.send (s : State) (took : Nat) (buf : List UInt8) : Nat × List UInt8 :=
  FfiRpc.send (if s.isOpen then took else 0) buf s.out

/-- `workers` is the size of the pool. -/
def step (workers : Nat) (s : State) : Act → Option State
  | .arrive => if s.isOpen then some { s with jobs := s.jobs ++ [.queued] } else none
  | .take i =>
    if s.jobs.idxOf? .queued = some i ∧ s.jobs.countP Job.active < workers then
      some { s with jobs := s.jobs.set i .running }
    else none
  | .reply i text err =>
    match s.jobs[i]?, text with
    | some .running, some text => some { s with jobs := s.jobs.set i (.replying text err) }
    | some .running, none => some { s with jobs := s.jobs.set i (.closing none) }
    | _, _ => none
  | .sendLen i took =>
    match s.jobs[i]? with
    | some (.replying text err) =>
      let (n, out) := s.send took (toLE 8 text.length)
      some { s with
        jobs := s.jobs.set i (if n = 8 then .midway text err else .closing none)
        out := out }
    | _ => none
  | .sendText i took =>
    match s.jobs[i]? with
    | some (.midway text err) =>
      let (n, out) := s.send took text
      let job := if n ≠ text.length then .closing none
        else if err then .closing (some text) else .done (some text)
      some { s with jobs := s.jobs.set i job, out := out }
    | _ => none
  | .close i =>
    match s.jobs[i]? with
    | some (.closing reply) => some { s with jobs := s.jobs.set i (.done reply), isOpen := false }
    | _ => none
  | .shut => some { s with isOpen := false }

def server (workers : Nat) : LTS State Act := .ofFn (· = init) (step workers)

/-- The reply, once all of it is written. -/
def Job.written : Job → Option (List UInt8)
  | .closing reply | .done reply => reply
  | _ => none

def Job.isMidway : Job → Bool
  | .midway _ _ => true
  | _ => false

/-- The replies that are written, up to the first request whose reply is not. -/
def answered (jobs : List Job) : List (List UInt8) :=
  (jobs.takeWhile fun job => job.written.isSome).filterMap Job.written

/-- The bytes written are the frames of these replies, in the order of the
requests, and, while the worker of the next request is between its two `send`s,
its length. -/
def InOrder (s : State) : Prop :=
  s.out = (answered s.jobs).flatMap frame ∨
    ∃ text err, s.jobs[(answered s.jobs).length]? = some (.midway text err) ∧
      s.out = (answered s.jobs).flatMap frame ++ toLE 8 text.length

/-- A worker starts on its frame only when all earlier replies are written, a
`send` on the open connection takes all it is given (the first one may also fail
and take nothing), and the connection is not closed in the middle of a frame. -/
def Turn (s : State) : Act → Bool
  | .sendLen i took => !s.isOpen || took == 0 ||
      (decide (8 ≤ took) && (s.jobs.take i).all fun job => job.written.isSome)
  | .sendText i took => !s.isOpen ||
      match s.jobs[i]? with
      | some (.midway text _) => decide (text.length ≤ took)
      | _ => true
  | .close _ | .shut => !s.isOpen || s.jobs.all fun job => !job.isMidway
  | _ => true

/-! ## What a step does -/

/-- The invariant: the jobs whose replies are written come first, and only the
next one can be in the middle of its frame. -/
structure Split (s : State) (pre rest : List Job) : Prop where
  jobs : s.jobs = pre ++ rest
  written : ∀ job ∈ pre, job.written.isSome = true
  unwritten : ∀ job ∈ rest, job.written = none
  out : (∀ job ∈ rest, job.isMidway = false) ∧ s.out = (pre.filterMap Job.written).flatMap frame ∨
    ∃ text err rest', rest = .midway text err :: rest' ∧ s.isOpen = true ∧
      (∀ job ∈ rest', job.isMidway = false) ∧
      s.out = (pre.filterMap Job.written).flatMap frame ++ toLE 8 text.length

variable {s s' : State} {pre rest : List Job} {workers : Nat}

theorem answered_split (hw : ∀ job ∈ pre, job.written.isSome = true)
    (hu : ∀ job ∈ rest, job.written = none) :
    answered (pre ++ rest) = pre.filterMap Job.written := by
  have hrest : rest.takeWhile (fun job => job.written.isSome) = [] := by
    cases rest with
    | nil => rfl
    | cons job rest => simp [hu job List.mem_cons_self]
  rw [answered, List.takeWhile_append_of_pos hw, hrest, List.append_nil]

theorem length_filterMap_written (hw : ∀ job ∈ pre, job.written.isSome = true) :
    (pre.filterMap Job.written).length = pre.length := by
  rw [List.length_filterMap_eq_countP]
  exact List.countP_eq_length.2 hw

theorem Split.inOrder (h : Split s pre rest) : InOrder s := by
  have hans : answered s.jobs = pre.filterMap Job.written := by
    rw [h.jobs, answered_split h.written h.unwritten]
  unfold InOrder
  rw [hans, length_filterMap_written h.written]
  rcases h.out with ⟨-, hout⟩ | ⟨text, err, rest', hrest, -, -, hout⟩
  · exact .inl hout
  · refine .inr ⟨text, err, ?_, hout⟩
    rw [h.jobs, hrest, List.getElem?_append_right le_rfl, Nat.sub_self, List.getElem?_cons_zero]

/-- A job whose reply is not written is in the second part. -/
theorem Split.at (h : Split s pre rest) {i : Nat} {job : Job} (hi : s.jobs[i]? = some job)
    (hw : job.written = none) :
    ∃ as bs, rest = as ++ job :: bs ∧ s.jobs.take i = pre ++ as ∧
      ∀ new, s.jobs.set i new = pre ++ (as ++ new :: bs) := by
  have hle : pre.length ≤ i := by
    by_contra hlt
    rw [h.jobs, List.getElem?_append_left (by omega)] at hi
    have := h.written job (List.mem_of_getElem? hi)
    rw [hw] at this; cases this
  rw [h.jobs, List.getElem?_append_right hle] at hi
  obtain ⟨as, bs, hrest, hlen⟩ := split_at hi
  have hjobs : s.jobs = (pre ++ as) ++ job :: bs := by rw [h.jobs, hrest, List.append_assoc]
  have hlen' : i = (pre ++ as).length := by rw [List.length_append]; omega
  refine ⟨as, bs, hrest, ?_, fun new => ?_⟩
  · rw [hjobs, hlen', List.take_left]
  · rw [hjobs, hlen', set_middle, List.append_assoc]

/-- A property of every element survives a replacement that has it. -/
theorem forall_replace {p : Job → Prop} {as bs : List Job} {job new : Job}
    (h : ∀ x ∈ as ++ job :: bs, p x) (hnew : p new) : ∀ x ∈ as ++ new :: bs, p x := by
  simp only [List.mem_append, List.mem_cons] at h ⊢
  intro x hx
  rcases hx with hx | hx | hx
  · exact h x (.inl hx)
  · exact hx ▸ hnew
  · exact h x (.inr (.inr hx))

/-- A step of a job that writes nothing. -/
theorem Split.quiet (h : Split s pre rest) {i : Nat} {job new : Job} (hi : s.jobs[i]? = some job)
    (hjob : job.written = none ∧ job.isMidway = false)
    (hnew : new.written = none ∧ new.isMidway = false) :
    ∃ pre' rest', Split { s with jobs := s.jobs.set i new } pre' rest' := by
  obtain ⟨as, bs, hrest, -, hset⟩ := h.at hi hjob.1
  subst hrest
  refine ⟨pre, as ++ new :: bs, hset new, h.written, forall_replace h.unwritten hnew.1, ?_⟩
  rcases h.out with ⟨hmid, hout⟩ | ⟨text, err, rest', hrest, hopen, hmid, hout⟩
  · exact .inl ⟨forall_replace hmid hnew.2, hout⟩
  · cases as with
    | nil =>
      -- the head is in the middle of its frame and `job` is not
      cases hrest
      cases hjob.2
    | cons x as =>
      cases hrest
      exact .inr ⟨text, err, as ++ new :: bs, rfl, hopen, forall_replace hmid hnew.2, hout⟩

/-- The next job in line writes its length. -/
theorem Split.start (h : Split s pre rest) {i : Nat} {text : List UInt8} {err : Bool}
    (hi : s.jobs[i]? = some (.replying text err))
    (hall : ∀ job ∈ s.jobs.take i, job.written.isSome = true) (hopen : s.isOpen = true) :
    ∃ pre' rest', Split { s with
      jobs := s.jobs.set i (.midway text err), out := s.out ++ toLE 8 text.length } pre' rest' := by
  obtain ⟨as, bs, rfl, htake, hset⟩ := h.at hi rfl
  cases as with
  | cons x as =>
    exfalso
    have hx := hall x (by rw [htake]; simp)
    rw [h.unwritten x (by simp)] at hx
    cases hx
  | nil =>
    refine ⟨pre, _, hset _, h.written, forall_replace h.unwritten rfl, .inr ?_⟩
    rcases h.out with ⟨hmid, hout⟩ | ⟨_, _, _, hrest, -⟩
    · refine ⟨text, err, bs, rfl, hopen, fun x hx => hmid x ?_, ?_⟩
      · exact List.mem_cons_of_mem _ hx
      · exact congrArg (· ++ toLE 8 text.length) hout
    · cases hrest

/-- The job in the middle of its frame writes the text. -/
theorem Split.finish (h : Split s pre rest) {i : Nat} {text : List UInt8} {err : Bool}
    (hi : s.jobs[i]? = some (.midway text err)) (new : Job) (hnew : new.written = some text) :
    s.isOpen = true ∧ ∃ pre' rest', Split { s with
      jobs := s.jobs.set i new, out := s.out ++ text } pre' rest' := by
  obtain ⟨as, bs, rfl, -, hset⟩ := h.at hi rfl
  rcases h.out with ⟨hmid, -⟩ | ⟨text', err', rest', hrest, hopen, hmid, hout⟩
  · exact absurd (hmid (.midway text err) (by simp)) nofun
  · cases as with
    | cons x as =>
      cases hrest
      exact absurd (hmid (.midway text err) (by simp)) nofun
    | nil =>
      cases hrest
      refine ⟨hopen, pre ++ [new], bs, ?_, fun x hx => ?_, fun x hx => ?_, .inl ⟨hmid, ?_⟩⟩
      · rw [hset, List.append_assoc]
        rfl
      · rcases List.mem_append.1 hx with hx | hx
        · exact h.written x hx
        · rw [List.mem_singleton.1 hx, hnew]
          rfl
      · exact h.unwritten x (List.mem_cons_of_mem _ hx)
      · simp only [hout, List.filterMap_append, List.filterMap_cons, hnew, List.filterMap_nil,
          List.flatMap_append, List.flatMap_cons, List.flatMap_nil, frame, List.append_assoc,
          List.append_nil]

/-- The connection is closed between frames. -/
theorem Split.shut (h : Split s pre rest)
    (hclear : s.isOpen = true → ∀ job ∈ s.jobs, job.isMidway = false) :
    Split { s with isOpen := false } pre rest := by
  refine ⟨h.jobs, h.written, h.unwritten, .inl ?_⟩
  rcases h.out with hout | ⟨text, err, rest', hrest, hopen, -⟩
  · exact hout
  · have := hclear hopen (.midway text err) (by rw [h.jobs, hrest]; simp)
    cases this

/-- A job is over, its reply written or not. -/
theorem Split.over (h : Split s pre rest) {i : Nat} {reply : Option (List UInt8)}
    (hi : s.jobs[i]? = some (.closing reply)) :
    ∃ pre' rest', Split { s with jobs := s.jobs.set i (.done reply) } pre' rest' := by
  cases reply with
  | none => exact h.quiet hi ⟨rfl, rfl⟩ ⟨rfl, rfl⟩
  | some text =>
    have hlt : i < pre.length := by
      by_contra hge
      rw [h.jobs, List.getElem?_append_right (by omega)] at hi
      cases h.unwritten _ (List.mem_of_getElem? hi)
    rw [h.jobs, List.getElem?_append_left hlt] at hi
    obtain ⟨as, bs, rfl, rfl⟩ := split_at hi
    refine ⟨as ++ .done (some text) :: bs, rest, ?_, forall_replace h.written rfl, h.unwritten, ?_⟩
    · show s.jobs.set _ _ = _
      rw [h.jobs, List.append_assoc, List.cons_append, set_middle, List.append_assoc,
        List.cons_append]
    · have hsame : (as ++ Job.done (some text) :: bs).filterMap Job.written =
          (as ++ Job.closing (some text) :: bs).filterMap Job.written := by
        simp [List.filterMap_append, Job.written]
      rw [hsame]
      exact h.out

/-- A new job at the end. -/
theorem Split.arrive (h : Split s pre rest) :
    Split { s with jobs := s.jobs ++ [.queued] } pre (rest ++ [.queued]) := by
  have hsnoc : ∀ {p : Job → Prop} {l : List Job}, (∀ x ∈ l, p x) → p .queued →
      ∀ x ∈ l ++ [.queued], p x := by
    intro p l hl hq x hx
    rcases List.mem_append.1 hx with hx | hx
    · exact hl x hx
    · exact List.mem_singleton.1 hx ▸ hq
  refine ⟨?_, h.written, hsnoc h.unwritten rfl, ?_⟩
  · exact (congrArg (· ++ [Job.queued]) h.jobs).trans (List.append_assoc ..)
  · rcases h.out with ⟨hmid, hout⟩ | ⟨text, err, rest', hrest, hopen, hmid, hout⟩
    · exact .inl ⟨hsnoc hmid rfl, hout⟩
    · exact .inr ⟨text, err, rest' ++ [.queued], by rw [hrest, List.cons_append], hopen,
        hsnoc hmid rfl, hout⟩

theorem send_none (s : State) {took : Nat} (h : s.isOpen = true → took = 0) (buf : List UInt8) :
    s.send took buf = (0, s.out) := by
  have hk : (if s.isOpen then took else 0) = 0 := by
    split
    · rename_i hopen
      exact h hopen
    · rfl
  rw [State.send, hk, send, Nat.zero_min, List.take_zero, List.append_nil]

theorem send_all {took : Nat} (hopen : s.isOpen = true) {buf : List UInt8}
    (h : buf.length ≤ took) : s.send took buf = (buf.length, s.out ++ buf) := by
  rw [State.send, hopen, if_pos rfl, send, Nat.min_eq_right h, List.take_of_length_le h]

/-- One step in turn. -/
theorem step_split {a : Act} (h : Split s pre rest) (hs : step workers s a = some s')
    (hturn : Turn s a = true) : ∃ pre' rest', Split s' pre' rest' := by
  cases a with
  | arrive =>
    simp only [step] at hs
    split at hs
    · cases hs
      exact ⟨_, _, h.arrive⟩
    · cases hs
  | take i =>
    simp only [step] at hs
    split at hs
    · rename_i hc
      cases hs
      have hi : s.jobs[i]? = some .queued := by
        obtain ⟨hlt, hget, -⟩ := List.idxOf?_eq_some_iff.1 hc.1
        rw [List.getElem?_eq_getElem hlt, hget]
      exact h.quiet hi ⟨rfl, rfl⟩ ⟨rfl, rfl⟩
    · cases hs
  | reply i text err =>
    simp only [step] at hs
    split at hs
    · rename_i text' hi
      cases hs
      exact h.quiet hi ⟨rfl, rfl⟩ ⟨rfl, rfl⟩
    · rename_i hi
      cases hs
      exact h.quiet hi ⟨rfl, rfl⟩ ⟨rfl, rfl⟩
    · cases hs
  | sendLen i took =>
    simp only [step] at hs
    split at hs
    · rename_i text err hi
      cases hs
      by_cases hnone : s.isOpen = true → took = 0
      · rw [send_none s hnone]
        exact h.quiet hi ⟨rfl, rfl⟩ ⟨rfl, rfl⟩
      · rw [Classical.not_imp] at hnone
        obtain ⟨hopen, htook⟩ := hnone
        have hall : 8 ≤ took ∧ ∀ job ∈ s.jobs.take i, job.written.isSome = true := by
          simpa [Turn, hopen, htook] using hturn
        rw [send_all hopen (by rw [length_toLE]; exact hall.1), length_toLE]
        exact h.start hi hall.2 hopen
    · cases hs
  | sendText i took =>
    simp only [step] at hs
    split at hs
    · rename_i text err hi
      cases hs
      have hopen := (h.finish hi (.done (some text)) rfl).1
      have htook : text.length ≤ took := by simpa [Turn, hopen, hi] using hturn
      rw [send_all hopen htook]
      simp only [ne_eq, not_true_eq_false, if_false]
      refine (h.finish hi _ ?_).2
      cases err <;> rfl
    · cases hs
  | close i =>
    simp only [step] at hs
    split at hs
    · rename_i reply hi
      cases hs
      have hclear : s.isOpen = true → ∀ job ∈ s.jobs, job.isMidway = false := by
        intro hopen
        simpa [Turn, hopen] using hturn
      exact (h.shut hclear).over hi
    · cases hs
  | shut =>
    cases hs
    have hclear : s.isOpen = true → ∀ job ∈ s.jobs, job.isMidway = false := by
      intro hopen
      simpa [Turn, hopen] using hturn
    exact ⟨_, _, h.shut hclear⟩

/-- In every run in turn the bytes on the connection are whole frames, one for
each reply, in the order of the requests. -/
theorem out_inOrder (h : ((server workers).restrict fun s a => Turn s a).Reachable s) :
    InOrder s := by
  have hsplit : ∃ pre rest, Split s pre rest := by
    refine h.invariant (I := fun s => ∃ pre rest, Split s pre rest) (fun s h0 => ?_)
      fun s a s' hi hs => ?_
    · rw [show s = init from h0]
      exact ⟨[], [], rfl, nofun, nofun, .inl ⟨nofun, rfl⟩⟩
    · obtain ⟨pre, rest, hi⟩ := hi
      exact step_split hi hs.1 hs.2
  obtain ⟨pre, rest, hsplit⟩ := hsplit
  exact hsplit.inOrder

/-- Two requests answered one after the other by two workers. -/
theorem out_inOrder_two : ∃ s, ((server 2).restrict fun s a => Turn s a).Reachable s ∧
    s.out = frame [65] ++ frame [66, 66] ∧ InOrder s := by
  obtain ⟨s, hs, hout⟩ : ∃ s, LTS.exec (step 2) Turn init [.arrive, .arrive, .take 0, .take 1,
      .reply 0 (some [65]) false, .reply 1 (some [66, 66]) false, .sendLen 0 8, .sendText 0 1,
      .sendLen 1 8, .sendText 1 2] = some s ∧ s.out = frame [65] ++ frame [66, 66] :=
    ⟨_, rfl, rfl⟩
  have h : ((server 2).restrict fun s a => Turn s a).Reachable s := .exec (.init rfl) hs
  exact ⟨s, h, hout, out_inOrder h⟩

/-- The same two with the second worker first: each reply stands where the other
request's is expected. -/
theorem out_swapped : ∃ s, (server 2).Reachable s ∧
    s.jobs = [.done (some [65]), .done (some [66, 66])] ∧ s.out = frame [66, 66] ++ frame [65] ∧
    ¬ InOrder s := by
  obtain ⟨s, hs, hjobs, hout⟩ : ∃ s, LTS.exec (step 2) (fun _ _ => true) init [.arrive, .arrive,
      .take 0, .take 1, .reply 0 (some [65]) false, .reply 1 (some [66, 66]) false, .sendLen 1 8,
      .sendText 1 2, .sendLen 0 8, .sendText 0 1] = some s ∧
      s.jobs = [.done (some [65]), .done (some [66, 66])] ∧
      s.out = frame [66, 66] ++ frame [65] := ⟨_, rfl, rfl, rfl⟩
  refine ⟨s, .of_restrict (.exec (.init rfl) hs), hjobs, hout, fun h => ?_⟩
  rw [InOrder, hjobs, hout] at h
  rcases h with h | ⟨text, err, h, -⟩
  · exact absurd h (by decide)
  · cases h

end FfiRpc.Jobs
