import FfiRpc.Core.Lists
import FfiRpc.Core.LTS
import FfiRpc.Store.Types

/-!
# Requests and replies on one connection

One TCP connection between a client and the server, frames taken as whole and in
order: `tcp_requestor` under the connection's lock (rpc_client.c:77-118), `net_read`
and `message_receiver` (rpc_network.c:208-230, rpc_server.c:168-193), the jobs
(rpc_server.c:211-249). Any number of threads call, the ping thread among them;
only the one that has the lock acts. Workers take the jobs in any order. The
connection may be closed by either side or break at any moment.

Messages carry no identifier. The numbers of requests here are ghost data; a
reply frame carries the number of the request whose job sent it.

`reachable_paired`: at most one request is under way, each request read has one
job and each job tries to send once, and a call that returns a reply returns the
one to its own request.
-/
namespace FfiRpc.Calls

/-- A request, or a call, by its number. -/
abbrev ReqId := Nat

/-- `method` is what `rpc_struct_get(request, "method", ..)` finds. -/
structure Request where
  id : ReqId
  method : Option CStr

structure Frame (R : Type) where
  req : ReqId
  reply : R

/-- A job: in the pool, before its `rpc_net_send` (`err`: on an error exit),
before the exit's `close`, over. -/
inductive JobPc (R : Type) where
  | queued
  | replying (reply : R) (err : Bool)
  | closing
  | done

structure Job (R : Type) where
  request : Request
  pc : JobPc R

inductive CallPc where
  | send | recv | close
  deriving DecidableEq

/-- The call that has the lock. -/
structure Call where
  request : Request
  pc : CallPc

structure State (R : Type) where
  next : ReqId
  call : Option Call
  clientOpen : Bool
  returned : List (ReqId × Option (Frame R))
  c2s : List Request
  s2c : List (Frame R)
  serverOpen : Bool
  queue : List Request
  reads : List ReqId
  jobs : List (Job R)
  attempts : List ReqId

variable {R : Type}

def init : State R where
  next := 0
  call := none
  clientOpen := true
  returned := []
  c2s := []
  s2c := []
  serverOpen := true
  queue := []
  reads := []
  jobs := []
  attempts := []

/-- `message_receiver`, the loop over the number of requests there were when it
was called. -/
def messageReceiver : Nat → State R → State R
  | 0, s => s
  | n + 1, s =>
    match s.queue with
    | [] => s
    | request :: queue =>
      messageReceiver n { s with queue := queue, jobs := s.jobs ++ [⟨request, .queued⟩] }

/-- `net_job` up to its `rpc_net_send`: the reply and whether it is on an error
exit. `handled` is what the handler, if one is called, leaves in the reply and
returns; `empty` is a reply no handler has touched.
rpc_server.c:211-243 -/
def netJob (methods : CStr → Bool) (empty : R) (request : Request) (handled : R × Int) : R × Bool :=
  match request.method with
  | some name => if methods name then (handled.1, handled.2 ≠ 0) else (empty, true)
  | none => (empty, true)

inductive Act (R : Type) where
  /-- `tcp_requestor` gets the lock -/
  | enter (method : Option CStr)
  | send (ok : Bool)
  /-- `ok`: there is a frame and it is a reply -/
  | recv (ok : Bool)
  | close
  | disconnect
  /-- `net_read` of the next frame; `ok`: it is a request -/
  | read (ok : Bool)
  | run (k : Nat) (handled : R × Int)
  | reply (k : Nat) (ok : Bool)
  | closeJob (k : Nat)
  /-- another thread of the server closes the connection -/
  | shut
  /-- the connection breaks -/
  | reset

/-- The server's end is closed: what it has not read is lost. -/
def shut (s : State R) : State R := { s with serverOpen := false, c2s := [] }

/-- The call that has the lock returns. -/
def leave (s : State R) (call : Call) (reply : Option (Frame R)) : State R :=
  { s with call := none, returned := s.returned ++ [(call.request.id, reply)] }

def step (methods : CStr → Bool) (empty : R) (s : State R) : Act R → Option (State R)
  | .enter method =>
    match s.call with
    | none => some { s with next := s.next + 1, call := some ⟨⟨s.next, method⟩, .send⟩ }
    | some _ => none
  | .send ok =>
    match s.call with
    | some ⟨request, .send⟩ =>
      if ok then
        if s.clientOpen then
          some { s with
            call := some ⟨request, .recv⟩
            c2s := if s.serverOpen then s.c2s ++ [request] else s.c2s }
        else none
      else some (leave s ⟨request, .send⟩ none)
    | _ => none
  | .recv ok =>
    match s.call with
    | some ⟨request, .recv⟩ =>
      match s.s2c with
      | frame :: rest =>
        let s := { s with s2c := rest }
        if ok then some (leave s ⟨request, .recv⟩ (some frame))
        else some { s with call := some ⟨request, .close⟩ }
      | [] => if ok then none else some { s with call := some ⟨request, .close⟩ }
    | _ => none
  | .close =>
    match s.call with
    | some ⟨request, .close⟩ => some (leave { s with clientOpen := false } ⟨request, .close⟩ none)
    | _ => none
  | .disconnect =>
    match s.call with
    | none => some { s with clientOpen := false }
    | some _ => none
  | .read ok =>
    match s.c2s with
    | request :: rest =>
      if ok then
        let s := { s with
          c2s := rest, reads := s.reads ++ [request.id], queue := s.queue ++ [request] }
        some (messageReceiver s.queue.length s)
      else some (shut s)
    | [] => none
  | .run k handled =>
    match s.jobs[k]? with
    | some ⟨request, .queued⟩ =>
      let (reply, err) := netJob methods empty request handled
      some { s with jobs := s.jobs.set k ⟨request, .replying reply err⟩ }
    | _ => none
  | .reply k ok =>
    match s.jobs[k]? with
    | some ⟨request, .replying reply err⟩ =>
      if ok && !s.serverOpen then none
      else some { s with
        jobs := s.jobs.set k ⟨request, if err || !ok then .closing else .done⟩
        attempts := s.attempts ++ [request.id]
        s2c := if ok then s.s2c ++ [⟨request.id, reply⟩] else s.s2c }
    | _ => none
  | .closeJob k =>
    match s.jobs[k]? with
    | some ⟨request, .closing⟩ => some (shut { s with jobs := s.jobs.set k ⟨request, .done⟩ })
    | _ => none
  | .shut => some (shut s)
  | .reset => some { shut s with s2c := [] }

def connection (methods : CStr → Bool) (empty : R) : LTS (State R) (Act R) :=
  .ofFn (· = init) (step methods empty)

/-- The job has not come to its `rpc_net_send`. -/
def JobPc.waiting : JobPc R → Bool
  | .queued | .replying _ _ => true
  | _ => false

/-- The requests under way: sent and not read, read and not answered, answered
and the reply not received. -/
def State.outstanding (s : State R) : List ReqId :=
  s.c2s.map Request.id ++ s.queue.map Request.id ++
    (s.jobs.filter fun j => j.pc.waiting).map (fun j => j.request.id) ++ s.s2c.map Frame.req

structure Paired (s : State R) : Prop where
  single : s.outstanding.length ≤ 1
  /-- one job for each request read -/
  jobs : s.jobs.map (fun j => j.request.id) = s.reads ∧ s.reads.Nodup
  /-- one `rpc_net_send` for each job -/
  attempts : ∀ j ∈ s.jobs, s.attempts.count j.request.id = if j.pc.waiting then 0 else 1
  replies : ∀ r ∈ s.returned, ∀ frame, r.2 = some frame → frame.req = r.1

/-! ## The invariant -/

structure Inv (s : State R) : Prop extends Paired s where
  queue : s.queue = []
  /-- while the client's end is open, what is under way is the request of the call -/
  mine : ∀ id ∈ s.outstanding, s.clientOpen = true →
    ∃ c, s.call = some c ∧ c.request.id = id ∧ c.pc ≠ .send
  waiting : ∀ c, s.call = some c → c.pc ≠ .send → s.clientOpen = true
  sending : ∀ c, s.call = some c → c.pc = .send → c.request.id ∉ s.c2s.map Request.id ++ s.reads
  new : ∀ id ∈ s.c2s.map Request.id, id ∉ s.reads
  old : ∀ id ∈ s.c2s.map Request.id ++ s.reads, id < s.next
  called : ∀ c, s.call = some c → c.request.id < s.next
  tried : ∀ id ∈ s.attempts, id ∈ s.reads

theorem init_inv : Inv (init : State R) where
  single := Nat.zero_le _
  jobs := ⟨rfl, List.nodup_nil⟩
  attempts j h := by cases h
  replies r h := by cases h
  queue := rfl
  mine id h := by cases h
  waiting c h := by cases h
  sending c h := by cases h
  new id h := by cases h
  old id h := by cases h
  called c h := by cases h
  tried id h := by cases h

variable {s s' : State R} {methods : CStr → Bool} {empty : R}

theorem messageReceiver_spec (s : State R) : messageReceiver s.queue.length s =
    { s with queue := [], jobs := s.jobs ++ s.queue.map fun request => ⟨request, .queued⟩ } := by
  generalize hq : s.queue = queue
  induction queue generalizing s with
  | nil =>
    obtain ⟨⟩ := s
    simp_all [messageReceiver]
  | cons request queue ih =>
    rw [List.length_cons, messageReceiver, hq]
    simp only
    rw [ih _ rfl]
    simp

/-- Messages under way are lost. -/
theorem Inv.lose (h : Inv s) {c2s : List Request} {s2c : List (Frame R)} (serverOpen : Bool)
    (hc : c2s.Sublist s.c2s) (hs : s2c.Sublist s.s2c) :
    Inv { s with c2s := c2s, s2c := s2c, serverOpen := serverOpen } := by
  have hids := hc.map Request.id
  have hsub : (State.outstanding
      { s with c2s := c2s, s2c := s2c, serverOpen := serverOpen }).Sublist s.outstanding :=
    ((hids.append (.refl _)).append (.refl _)).append (hs.map Frame.req)
  have hold : ∀ id ∈ c2s.map Request.id ++ s.reads, id ∈ s.c2s.map Request.id ++ s.reads :=
    (hids.append (.refl _)).subset
  exact { h with
    single := hsub.length_le.trans h.single
    mine := fun id hid => h.mine id (hsub.subset hid)
    sending := fun c hc hpc hm => h.sending c hc hpc (hold _ hm)
    new := fun id hid => h.new id (hids.subset hid)
    old := fun id hid => h.old id (hold id hid) }

/-- The server's end is closed. -/
theorem Inv.shut (h : Inv s) : Inv (shut s) :=
  h.lose false (List.nil_sublist _) (.refl _)

/-- The first frame for the client is taken. -/
theorem Inv.frame (h : Inv s) {frame : Frame R} {rest : List (Frame R)}
    (hs : s.s2c = frame :: rest) : Inv { s with s2c := rest } ∧
      frame.req ∈ s.outstanding ∧ State.outstanding { s with s2c := rest } = [] := by
  have hlen := h.single
  have hout : s.outstanding = State.outstanding { s with s2c := [] } ++
      frame.req :: rest.map Frame.req := by
    simp [State.outstanding, hs]
  have hmem : frame.req ∈ s.outstanding := hout ▸ by simp
  have hnil : State.outstanding { s with s2c := rest } = [] := by
    rw [hout, List.length_append, List.length_cons, List.length_map] at hlen
    have hrest : rest = [] := List.length_eq_zero_iff.1 (by omega)
    subst hrest
    exact List.length_eq_zero_iff.1 (by omega)
  exact ⟨h.lose s.serverOpen (.refl _) (hs ▸ List.sublist_cons_self ..), hmem, hnil⟩

/-- The call that has the lock is past its `send`. -/
theorem Inv.past (h : Inv s) {request : Request} {pc : CallPc} (hcall : s.call = some ⟨request, pc⟩)
    (hpc : pc ≠ .send) : Inv { s with call := some ⟨request, .close⟩ } :=
  { h with
    mine := by
      intro id hid hopen
      obtain ⟨c, hc, hid, -⟩ := h.mine id hid hopen
      cases hcall.symm.trans hc
      exact ⟨_, rfl, hid, nofun⟩
    waiting := fun _ _ _ => h.waiting _ hcall hpc
    sending := by
      intro c hc hsend
      cases hc
      cases hsend
    called := by
      intro c hc
      cases hc
      exact h.called ⟨request, pc⟩ hcall }

/-- The call that has the lock returns, with its own reply if with any. -/
theorem Inv.leave (h : Inv s) {call : Call} {reply : Option (Frame R)}
    (hreply : ∀ frame, reply = some frame → frame.req = call.request.id)
    (hout : s.clientOpen = true → s.outstanding = []) : Inv (leave s call reply) :=
  { h with
    mine := by
      intro id hid hopen
      rw [show State.outstanding (Calls.leave s call reply) = [] from hout hopen] at hid
      cases hid
    waiting := nofun
    sending := nofun
    called := nofun
    replies := by
      intro r hr frame hf
      rcases List.mem_append.1 hr with hr | hr
      · exact h.replies r hr frame hf
      · rw [List.mem_singleton.1 hr] at hf ⊢
        exact hreply frame hf }

/-- The client's end is closed. -/
theorem Inv.hangUp (h : Inv s) : Inv { s with call := none, clientOpen := false } :=
  { h with
    mine := nofun
    waiting := nofun
    sending := nofun
    called := nofun }

/-- Nothing is under way while the call that has the lock has not sent its
request. -/
theorem Inv.idle (h : Inv s) (hcall : ∀ c, s.call = some c → c.pc = .send)
    (hopen : s.clientOpen = true) : s.outstanding = [] := by
  rw [List.eq_nil_iff_forall_not_mem]
  intro id hid
  obtain ⟨c, hc, -, hpc⟩ := h.mine id hid hopen
  exact hpc (hcall c hc)

/-- A request is sent. -/
theorem Inv.send (h : Inv s) {request : Request} (hcall : s.call = some ⟨request, .send⟩)
    (hopen : s.clientOpen = true) : Inv { s with
      call := some ⟨request, .recv⟩
      c2s := if s.serverOpen then s.c2s ++ [request] else s.c2s } := by
  have hidle : s.outstanding = [] := by
    refine h.idle (fun c hc => ?_) hopen
    cases hcall.symm.trans hc
    rfl
  have hc2s : s.c2s = [] := by
    simp only [State.outstanding, List.append_eq_nil_iff, List.map_eq_nil_iff] at hidle
    exact hidle.1.1.1
  have hfresh : request.id ∉ s.reads := fun hm =>
    h.sending _ hcall rfl (List.mem_append_right _ hm)
  have hnew : ∀ id ∈ (if s.serverOpen then s.c2s ++ [request] else s.c2s).map Request.id,
      id = request.id := by
    intro id hid
    split at hid <;> simp_all
  have hout : ∀ id ∈ State.outstanding { s with
      call := some ⟨request, .recv⟩
      c2s := if s.serverOpen then s.c2s ++ [request] else s.c2s }, id = request.id := by
    intro id hid
    simp only [State.outstanding, List.append_eq_nil_iff] at hidle
    simp only [State.outstanding, hidle.1.1.2, hidle.1.2, hidle.2, List.append_nil] at hid
    exact hnew id hid
  exact { h with
    single := by
      simp only [State.outstanding, List.append_eq_nil_iff] at hidle
      simp only [State.outstanding, hidle.1.1.2, hidle.1.2, hidle.2, List.append_nil, hc2s]
      split <;> simp
    mine := fun id hid _ => ⟨_, rfl, (hout id hid).symm, nofun⟩
    waiting := fun _ _ _ => hopen
    sending := by
      intro c hc hsend
      cases hc
      cases hsend
    new := fun id hid => hnew id hid ▸ hfresh
    old := by
      intro id hid
      rcases List.mem_append.1 hid with hid | hid
      · rw [hnew id hid]
        exact h.called _ hcall
      · exact h.old id (List.mem_append_right _ hid)
    called := by
      intro c hc
      cases hc
      exact h.called ⟨request, .send⟩ hcall }

/-- A request is read and gets its job. -/
theorem Inv.read (h : Inv s) {request : Request} {rest : List Request}
    (hs : s.c2s = request :: rest) : Inv { s with
      c2s := rest
      reads := s.reads ++ [request.id]
      queue := []
      jobs := s.jobs ++ [⟨request, .queued⟩] } := by
  have hq := h.queue
  have hlen := h.single
  have hrest : rest = [] := by
    rw [State.outstanding, hs] at hlen
    simp only [List.map_cons, List.length_append, List.length_cons] at hlen
    exact List.length_eq_zero_iff.1 (by simp at hlen; omega)
  subst hrest
  have hfresh : request.id ∉ s.reads := h.new _ (by rw [hs]; exact List.mem_cons_self)
  have hperm : (State.outstanding { s with
      c2s := []
      reads := s.reads ++ [request.id]
      queue := []
      jobs := s.jobs ++ [⟨request, .queued⟩] }).Perm s.outstanding := by
    simp only [State.outstanding, hs, hq, List.filter_append, List.map_append, List.map_nil,
      List.nil_append, List.map_cons, List.append_assoc]
    exact List.perm_middle
  exact { h with
    single := hperm.length_eq.trans_le hlen
    jobs := by
      rw [List.map_append, h.jobs.1]
      exact ⟨rfl, nodup_snoc h.jobs.2 hfresh⟩
    attempts := by
      intro j hj
      rcases List.mem_append.1 hj with hj | hj
      · exact h.attempts j hj
      · rw [List.mem_singleton.1 hj]
        exact List.count_eq_zero.2 fun hm => hfresh (h.tried _ hm)
    queue := rfl
    mine := fun id hid => h.mine id (hperm.subset hid)
    sending := by
      intro c hc hpc hm
      refine h.sending c hc hpc ?_
      rw [hs]
      simpa [or_comm] using hm
    new := nofun
    old := by
      intro id hid
      refine h.old id ?_
      rw [hs]
      simpa [or_comm] using hid
    tried := fun id hid => List.mem_append_left _ (h.tried id hid) }

theorem ids_set {jobs : List (Job R)} {k : Nat} {request : Request} {pc : JobPc R} (pc' : JobPc R)
    (hk : jobs[k]? = some ⟨request, pc⟩) :
    (jobs.set k ⟨request, pc'⟩).map (fun j => j.request.id) =
      jobs.map fun j => j.request.id := by
  obtain ⟨as, bs, rfl, rfl⟩ := split_at hk
  rw [set_middle, List.map_append, List.map_append]
  rfl

/-- A job goes on and does not try to send. -/
theorem Inv.go (h : Inv s) {k : Nat} {request : Request} {pc : JobPc R} (pc' : JobPc R)
    (hk : s.jobs[k]? = some ⟨request, pc⟩) (hpc : pc'.waiting = pc.waiting) :
    Inv { s with jobs := s.jobs.set k ⟨request, pc'⟩ } := by
  have hids := ids_set pc' hk
  obtain ⟨as, bs, hjobs, rfl⟩ := split_at hk
  have hset := set_middle as ⟨request, pc⟩ ⟨request, pc'⟩ bs
  have hout : State.outstanding { s with jobs := s.jobs.set as.length ⟨request, pc'⟩ } =
      s.outstanding := by
    simp only [State.outstanding, hjobs, hset, List.filter_append, List.filter_cons, hpc]
    split <;> simp
  exact { h with
    single := hout ▸ h.single
    jobs := by
      rw [hids]
      exact h.jobs
    attempts := by
      intro j hj
      rw [hjobs, hset] at hj
      rcases List.mem_append.1 hj with hj | hj
      · exact h.attempts j (by rw [hjobs]; exact List.mem_append_left _ hj)
      · rcases List.mem_cons.1 hj with rfl | hj
        · rw [hpc]
          exact h.attempts ⟨request, pc⟩ (by rw [hjobs]; simp)
        · exact h.attempts j (by rw [hjobs]; exact List.mem_append_right _ (.tail _ hj))
    mine := fun id hid => h.mine id (hout ▸ hid) }

/-- A job tries to send its reply. -/
theorem Inv.reply (h : Inv s) {k : Nat} {request : Request} {pc pc' : JobPc R} (reply : R)
    (ok : Bool) (hk : s.jobs[k]? = some ⟨request, pc⟩) (hpc : pc.waiting = true)
    (hpc' : pc'.waiting = false) : Inv { s with
      jobs := s.jobs.set k ⟨request, pc'⟩
      attempts := s.attempts ++ [request.id]
      s2c := if ok then s.s2c ++ [⟨request.id, reply⟩] else s.s2c } := by
  have hids := ids_set pc' hk
  obtain ⟨as, bs, hjobs, rfl⟩ := split_at hk
  have hset := set_middle as ⟨request, pc⟩ ⟨request, pc'⟩ bs
  have hsub : (State.outstanding { s with
      jobs := s.jobs.set as.length ⟨request, pc'⟩
      attempts := s.attempts ++ [request.id]
      s2c := if ok then s.s2c ++ [⟨request.id, reply⟩] else s.s2c }).Subperm s.outstanding := by
    rw [List.subperm_ext_iff]
    intro id _
    simp only [State.outstanding, hjobs, hset, List.filter_append, List.filter_cons, hpc, hpc',
      if_true, Bool.false_eq_true, if_false, List.map_append, List.map_cons, List.count_append,
      List.count_cons]
    split
    · simp only [List.map_append, List.map_cons, List.map_nil, List.count_append, List.count_cons,
        List.count_nil]
      omega
    · omega
  have hnodup : (s.jobs.map fun j => j.request.id).Nodup := h.jobs.1.symm ▸ h.jobs.2
  rw [hjobs, List.map_append, List.map_cons, List.nodup_middle, List.nodup_cons] at hnodup
  have hone := h.attempts ⟨request, pc⟩ (by rw [hjobs]; simp)
  have hother : ∀ j ∈ as ++ bs, (s.attempts ++ [request.id]).count j.request.id =
      if j.pc.waiting then 0 else 1 := by
    intro j hj
    have hne : request.id ≠ j.request.id := by
      intro heq
      refine hnodup.1 ?_
      rw [heq, ← List.map_append]
      exact List.mem_map_of_mem hj
    rw [List.count_append, List.count_singleton, beq_false_of_ne hne]
    refine h.attempts j ?_
    rw [hjobs]
    exact List.perm_middle.mem_iff.2 (.tail _ hj)
  exact { h with
    single := hsub.length_le.trans h.single
    jobs := by
      rw [hids]
      exact h.jobs
    attempts := by
      intro j hj
      rw [hjobs, hset] at hj
      rcases List.mem_cons.1 (List.perm_middle.mem_iff.1 hj) with rfl | hj
      · simp only [hpc, if_true] at hone
        simp [hone, hpc']
      · exact hother j hj
    mine := fun id hid => h.mine id (hsub.subset hid)
    tried := by
      intro id hid
      rcases List.mem_append.1 hid with hid | hid
      · exact h.tried id hid
      · rw [List.mem_singleton.1 hid, ← h.jobs.1, hjobs]
        simp }

/-- One step. -/
theorem step_inv {a : Act R} (h : Inv s) (hs : step methods empty s a = some s') : Inv s' := by
  cases a with
  | enter method =>
    simp only [step] at hs
    split at hs
    · rename_i hcall
      cases hs
      have hnew : s.next ∉ s.c2s.map Request.id ++ s.reads := fun hm =>
        Nat.lt_irrefl _ (h.old _ hm)
      exact { h with
        mine := by
          intro id hid hopen
          obtain ⟨c, hc, -⟩ := h.mine id hid hopen
          cases hcall.symm.trans hc
        waiting := by
          intro c hc hpc
          cases hc
          exact absurd rfl hpc
        sending := by
          intro c hc _
          cases hc
          exact hnew
        old := fun id hid => Nat.lt_succ_of_lt (h.old id hid)
        called := by
          intro c hc
          cases hc
          exact Nat.lt_succ_self _ }
    · cases hs
  | send ok =>
    simp only [step] at hs
    split at hs
    · rename_i request hcall
      split at hs
      · split at hs
        · rename_i hopen
          cases hs
          exact h.send hcall hopen
        · cases hs
      · cases hs
        refine h.leave nofun (h.idle fun c hc => ?_)
        cases hcall.symm.trans hc
        rfl
    · cases hs
  | recv ok =>
    simp only [step] at hs
    split at hs
    · rename_i request hcall
      split at hs
      · rename_i frame rest hs2c
        obtain ⟨hrest, hmem, hout⟩ := h.frame hs2c
        split at hs
        · cases hs
          refine hrest.leave (fun f hf => ?_) fun _ => hout
          cases hf
          obtain ⟨c, hc, hid, -⟩ := h.mine _ hmem (h.waiting _ hcall nofun)
          cases hcall.symm.trans hc
          exact hid.symm
        · cases hs
          exact hrest.past hcall nofun
      · split at hs
        · cases hs
        · cases hs
          exact h.past hcall nofun
    · cases hs
  | close =>
    simp only [step] at hs
    split at hs
    · rename_i request hcall
      cases hs
      exact h.hangUp.leave nofun nofun
    · cases hs
  | disconnect =>
    simp only [step] at hs
    split at hs
    · rename_i hcall
      cases hs
      have hhang := h.hangUp
      rwa [← hcall] at hhang
    · cases hs
  | read ok =>
    simp only [step] at hs
    split at hs
    · rename_i request rest hc2s
      split at hs
      · cases hs
        rw [messageReceiver_spec { s with
          c2s := rest, reads := s.reads ++ [request.id], queue := s.queue ++ [request] }]
        simp only [h.queue, List.nil_append, List.map_cons, List.map_nil]
        exact h.read hc2s
      · cases hs
        exact h.shut
    · cases hs
  | run k handled =>
    simp only [step] at hs
    split at hs
    · rename_i request hk
      cases hs
      exact h.go _ hk rfl
    · cases hs
  | reply k ok =>
    simp only [step] at hs
    split at hs
    · rename_i request reply err hk
      split at hs
      · cases hs
      · cases hs
        refine h.reply reply ok hk rfl ?_
        split <;> rfl
    · cases hs
  | closeJob k =>
    simp only [step] at hs
    split at hs
    · rename_i request hk
      cases hs
      exact (h.go .done hk rfl).shut
    · cases hs
  | shut =>
    cases hs
    exact h.shut
  | reset =>
    cases hs
    exact h.lose false (List.nil_sublist _) (List.nil_sublist _)

/-- In every reachable state requests and replies are paired. -/
theorem reachable_paired (h : (connection methods empty).Reachable s) : Paired s := by
  have hinv : Inv s := by
    refine h.invariant (fun s h0 => ?_) fun s a s' hi hs => ?_
    · rw [show s = init from h0]
      exact init_inv
    · exact step_inv hi hs
  exact hinv.toPaired

/-- A ping, and a request without a method that the server answers and closes the
connection after. -/
theorem reachable_paired_rejected : ∃ s : State Nat,
    (connection (· = ascii "ping") 0).Reachable s ∧
    s.returned = [(0, some ⟨0, 7⟩), (1, some ⟨1, 0⟩)] ∧ Paired s := by
  obtain ⟨s, hs, hreturned⟩ : ∃ s : State Nat,
      LTS.exec (step (· = ascii "ping") 0) (fun _ _ => true) init [.enter (some (ascii "ping")),
        .send true, .read true, .run 0 (7, 0), .reply 0 true, .recv true, .enter none,
        .send true, .read true, .run 1 (7, 0), .reply 1 true, .closeJob 1,
        .recv true] = some s ∧ s.returned = [(0, some ⟨0, 7⟩), (1, some ⟨1, 0⟩)] :=
    ⟨_, rfl, rfl⟩
  have h : (connection (· = ascii "ping") 0).Reachable s := .of_restrict (.exec (.init rfl) hs)
  exact ⟨s, h, hreturned, reachable_paired h⟩

end FfiRpc.Calls
