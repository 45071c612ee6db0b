import FfiRpc.Net.Pool

/-!
# What the thread pool does with a job

In every interleaving a job that was added is in one place: in the queue, with the worker that
has taken it, or finished (`jobs_once`). `thpool_wait` reads `len` without the queue's mutex and
`num_threads_working` after it; a worker counts itself before it takes a job, so that between
the two reads no job slips from one to the other, and when it returns all jobs are finished that
had been added before (`wait_finished`).
-/
namespace FfiRpc.Thpool

/-! ## The queue

The jobs are numbered as they are added, so a queue that holds them in order is known by
the number of its first and by its length. -/

/-- The queue holds the jobs from `a` on, in order. -/
structure JobQueue.Holds (q : JobQueue) (a : Nat) : Prop where
  front : q.front = if q.len = 0 then none else some a
  rear : q.rear = if q.len = 0 then none else some (a + q.len - 1)
  link : ∀ j, a ≤ j → j + 1 < a + q.len → q.prev j = some (j + 1)

/-- The next job goes to the end, whether the queue is empty or not. -/
theorem JobQueue.Holds.push {q : JobQueue} {a : Nat} (h : q.Holds a) :
    ∃ q', q.push (a + q.len) = some q' ∧ q'.len = q.len + 1 ∧ q'.Holds a := by
  unfold JobQueue.push
  cases hlen : q.len with
  | zero =>
    exact ⟨_, rfl, rfl, rfl, rfl, fun j h1 h2 => by simp only at h2; omega⟩
  | succ n =>
    have hrear := h.rear
    rw [hlen, if_neg (Nat.succ_ne_zero n)] at hrear
    simp only [hrear, Option.map_some]
    refine ⟨_, rfl, rfl, ?_, ?_, fun j h1 h2 => ?_⟩
    · have hfront := h.front
      rw [hlen, if_neg (Nat.succ_ne_zero n)] at hfront
      simp [hfront]
    · simp
    · simp only at h2 ⊢
      by_cases hj : j = a + (n + 1) - 1
      · rw [hj, Function.update_self]
        congr 1
      · rw [Function.update_of_ne hj, Function.update_of_ne (by omega)]
        exact h.link j h1 (by omega)

/-- What `jobqueue_pull` does: nothing on an empty queue, and otherwise it takes the job at the
front, and posts if another is left. -/
theorem JobQueue.Holds.pull {q : JobQueue} {a : Nat} (h : q.Holds a) :
    q.len = 0 ∧ q.pull = some (none, false, q) ∨
      ∃ q', 0 < q.len ∧ q'.len = q.len - 1 ∧ q'.Holds (a + 1) ∧
        q.pull = some (some a, decide (1 < q.len), q') := by
  have hfront := h.front
  unfold JobQueue.pull
  match hlen : q.len with
  | 0 =>
    rw [hlen, if_pos rfl] at hfront
    exact .inl ⟨rfl, by simp [hfront]⟩
  | 1 =>
    rw [hlen, if_neg Nat.one_ne_zero] at hfront
    refine .inr ⟨{ q with front := none, rear := none, len := 0 }, Nat.one_pos, rfl,
      ⟨rfl, rfl, fun j h1 h2 => ?_⟩, by simp [hfront]⟩
    simp only at h2
    omega
  | n + 2 =>
    rw [hlen, if_neg (Nat.succ_ne_zero _)] at hfront
    have hrear := h.rear
    rw [hlen, if_neg (Nat.succ_ne_zero _)] at hrear
    refine .inr ⟨{ q with front := q.prev a, len := q.len - 1 }, by omega, by simp [hlen], ⟨?_, ?_, ?_⟩,
      by simp [hfront, hlen]⟩
    · simp only [hlen]
      rw [h.link a (Nat.le_refl a) (by omega), if_neg (by omega)]
    · simp only [hlen]
      rw [hrear, if_neg (by omega)]
      congr 1
      omega
    · intro j h1 h2
      simp only [hlen] at h2
      exact h.link j (by omega) (by omega)

/-! ## What a step does

The step function is read once: `step_cases` gives for every action the guard that let it
happen and the state it leaves. The invariants below go by the cases of `Move`. -/

/-- A signal wakes one of the waiting threads, unless none is waiting. -/
theorem signal_cases {α : Type} {blocked : α → Bool} {wake : α → α} {l l' : List α} {i : Option Nat}
    (h : signal blocked wake l i = some l') :
    (∀ x ∈ l, blocked x = false) ∧ l' = l ∨
      ∃ as x bs, l = as ++ x :: bs ∧ blocked x = true ∧ l' = as ++ wake x :: bs := by
  cases i with
  | none =>
    rw [signal] at h
    split at h
    · cases h
    · rename_i hnone
      cases h
      refine .inl ⟨fun x hx => ?_, rfl⟩
      by_contra hc
      exact hnone (List.any_eq_true.2 ⟨x, hx, by simpa using hc⟩)
  | some i =>
    rw [signal] at h
    obtain ⟨x, hx, h⟩ := Option.bind_eq_some_iff.1 h
    split at h
    · rename_i hblocked
      cases h
      obtain ⟨as, bs, rfl, rfl⟩ := split_at hx
      exact .inr ⟨as, x, bs, rfl, hblocked, set_middle as x _ bs⟩
    · cases h

/-- The steps, with the thread that takes each. -/
inductive Move (s : Pool) : Act → Pool → Prop
  | push {queue} (hfree : s.poster = none) (hpush : s.queue.push s.pushed = some queue) :
    Move s .push { s with queue, poster := some none, pushed := s.pushed + 1 }
  | post {who wake workers} (hposter : s.poster = some who)
    (hsignal : signal Worker.isBlocked (fun _ => .woken) s.workers wake = some workers) :
    Move s (.post wake) { s with v := true, poster := none, workers := goOn workers who }
  | take {as w bs} (hat : s.workers = as ++ w :: bs) (hw : w = .idle ∨ w = .woken) (hv : s.v = true) :
    Move s (.enter as.length) { s with v := false, workers := as ++ .taken :: bs }
  | sleep {as w bs} (hat : s.workers = as ++ w :: bs) (hw : w = .idle ∨ w = .woken) (hv : s.v = false) :
    Move s (.enter as.length) { s with workers := as ++ .blocked :: bs }
  | count {as bs} (hat : s.workers = as ++ .taken :: bs) (hlock : s.locked = false) :
    Move s (.count as.length) { s with working := s.working + 1, workers := as ++ .counted :: bs }
  | pullMore {as bs job queue} (hat : s.workers = as ++ .counted :: bs) (hfree : s.poster = none)
    (hpull : s.queue.pull = some (some job, true, queue)) :
    Move s (.pull as.length)
      { s with queue, poster := some (some as.length), workers := as ++ .posting job :: bs }
  | pullLast {as bs job queue} (hat : s.workers = as ++ .counted :: bs) (hfree : s.poster = none)
    (hpull : s.queue.pull = some (job, false, queue)) :
    Move s (.pull as.length) { s with queue, workers := as ++ .running job :: bs }
  | finish {as bs job} (hat : s.workers = as ++ .running job :: bs) :
    Move s (.finish as.length)
      { s with workers := as ++ .leaving :: bs, finished := s.finished ++ job.toList }
  | leaveLast {as bs wake waiters} (hat : s.workers = as ++ .leaving :: bs) (hlock : s.locked = false)
    (hworking : s.working - 1 = 0)
    (hsignal : signal Waiter.isBlocked Waiter.wake s.waiters wake = some waiters) :
    Move s (.leave as.length wake)
      { s with working := s.working - 1, workers := as ++ .idle :: bs, waiters }
  | leave {as bs} (hat : s.workers = as ++ .leaving :: bs) (hlock : s.locked = false)
    (hworking : s.working - 1 ≠ 0) :
    Move s (.leave as.length none) { s with working := s.working - 1, workers := as ++ .idle :: bs }
  | spurious {as bs} (hat : s.workers = as ++ .blocked :: bs) :
    Move s (.spurious as.length) { s with workers := as ++ .woken :: bs }
  | call : Move s .call { s with waiters := s.waiters ++ [.calling s.pushed] }
  | lock {as w bs since} (hat : s.waiters = as ++ w :: bs) (hw : w = .calling since ∨ w = .woken since)
    (hlock : s.locked = false) :
    Move s (.lock as.length) { s with waiters := as ++ .reading since :: bs }
  | readLenWait {as bs since} (hat : s.waiters = as ++ .reading since :: bs) (hlen : s.queue.len ≠ 0) :
    Move s (.readLen as.length) { s with waiters := as ++ .blocked since :: bs }
  | readLen {as bs since} (hat : s.waiters = as ++ .reading since :: bs) (hlen : s.queue.len = 0) :
    Move s (.readLen as.length) { s with waiters := as ++ .sawEmpty since s.pushed :: bs }
  | readWorkingWait {as bs since seen} (hat : s.waiters = as ++ .sawEmpty since seen :: bs)
    (hworking : s.working ≠ 0) :
    Move s (.readWorking as.length) { s with waiters := as ++ .blocked since :: bs }
  | readWorking {as bs since seen} (hat : s.waiters = as ++ .sawEmpty since seen :: bs)
    (hworking : s.working = 0) :
    Move s (.readWorking as.length) { s with waiters := as ++ .returned since seen :: bs }
  | spuriousWait {as bs since} (hat : s.waiters = as ++ .blocked since :: bs) :
    Move s (.spuriousWait as.length) { s with waiters := as ++ .woken since :: bs }

/-- The steps of a worker. A pull that leaves a job behind has taken one, which is why a
worker that posts has a job. -/
theorem workerStep_cases {s s' : Pool} {i : Nat} {w : Worker} {a : Act} (hw : s.workers[i]? = some w)
    (ha : a = .enter i ∨ a = .count i ∨ a = .pull i ∨ a = .finish i ∨ (∃ k, a = .leave i k) ∨
      a = .spurious i) (h : workerStep s i w a = some s') : Move s a s' := by
  obtain ⟨as, bs, hat, rfl⟩ := split_at hw
  have hset : ∀ x, s.workers.set as.length x = as ++ x :: bs := fun x => hat ▸ set_middle as w x bs
  rcases ha with rfl | rfl | rfl | rfl | ⟨k, rfl⟩ | rfl
  · simp only [workerStep, hset] at h
    split at h
    · rename_i hstate
      split at h
      · rename_i hv
        cases h
        exact .take hat hstate hv
      · rename_i hv
        cases h
        exact .sleep hat hstate (by simpa using hv)
    · cases h
  · simp only [workerStep, hset] at h
    split at h
    · rename_i hc
      obtain ⟨rfl, hlock⟩ := hc
      cases h
      exact .count hat hlock
    · cases h
  · simp only [workerStep, hset] at h
    split at h
    · rename_i hc
      obtain ⟨rfl, hfree⟩ := hc
      obtain ⟨⟨job, post, queue⟩, hpull, h⟩ := Option.bind_eq_some_iff.1 h
      rcases job with _ | job
      · cases h
        cases post with
        | false => exact .pullLast hat hfree hpull
        | true =>
          exfalso
          revert hpull
          unfold JobQueue.pull
          split <;> simp
      · cases post with
        | false =>
          cases h
          exact .pullLast hat hfree hpull
        | true =>
          cases h
          exact .pullMore hat hfree hpull
    · cases h
  · simp only [workerStep, hset] at h
    split at h
    · cases h
      exact .finish hat
    · cases h
  · simp only [workerStep, hset] at h
    split at h
    · rename_i hc
      obtain ⟨rfl, hlock⟩ := hc
      split at h
      · rename_i hworking
        obtain ⟨waiters, hsignal, h⟩ := Option.map_eq_some_iff.1 h
        cases h
        exact .leaveLast hat hlock hworking hsignal
      · rename_i hworking
        split at h
        · rename_i hk
          cases h
          subst hk
          exact .leave hat hlock hworking
        · cases h
    · cases h
  · simp only [workerStep, hset] at h
    split at h
    · rename_i hc
      subst hc
      cases h
      exact .spurious hat
    · cases h

/-- The steps of a thread in `thpool_wait`. -/
theorem waiterStep_cases {s s' : Pool} {k : Nat} {w : Waiter} {a : Act} (hw : s.waiters[k]? = some w)
    (ha : a = .lock k ∨ a = .readLen k ∨ a = .readWorking k ∨ a = .spuriousWait k)
    (h : waiterStep s k w a = some s') : Move s a s' := by
  obtain ⟨as, bs, hat, rfl⟩ := split_at hw
  have hset : ∀ x, s.waiters.set as.length x = as ++ x :: bs := fun x => hat ▸ set_middle as w x bs
  rcases ha with rfl | rfl | rfl | rfl
  · simp only [waiterStep, hset] at h
    split at h
    · split at h
      · rename_i hlock
        cases h
        exact .lock hat (.inl rfl) hlock
      · cases h
    · split at h
      · rename_i hlock
        cases h
        exact .lock hat (.inr rfl) hlock
      · cases h
    · cases h
  · simp only [waiterStep, hset] at h
    split at h
    · split at h
      · rename_i hlen
        cases h
        exact .readLenWait hat hlen
      · rename_i hlen
        cases h
        exact .readLen hat (by simpa using hlen)
    · cases h
  · simp only [waiterStep, hset] at h
    split at h
    · split at h
      · rename_i hworking
        cases h
        exact .readWorkingWait hat hworking
      · rename_i hworking
        cases h
        exact .readWorking hat (by simpa using hworking)
    · cases h
  · simp only [waiterStep, hset] at h
    split at h
    · cases h
      exact .spuriousWait hat
    · cases h

/-- Every step of the pool. -/
theorem step_cases {s s' : Pool} {a : Act} (h : step s a = some s') : Move s a s' := by
  cases a with
  | push =>
    simp only [step] at h
    split at h
    · rename_i hfree
      obtain ⟨queue, hpush, h⟩ := Option.map_eq_some_iff.1 h
      cases h
      exact .push hfree hpush
    · cases h
  | post wake =>
    simp only [step] at h
    obtain ⟨who, hposter, h⟩ := Option.bind_eq_some_iff.1 h
    obtain ⟨workers, hsignal, h⟩ := Option.map_eq_some_iff.1 h
    cases h
    exact .post hposter hsignal
  | call =>
    cases h
    exact .call
  | enter i =>
    obtain ⟨w, hw, h⟩ := Option.bind_eq_some_iff.1 h
    exact workerStep_cases hw (by simp) h
  | count i =>
    obtain ⟨w, hw, h⟩ := Option.bind_eq_some_iff.1 h
    exact workerStep_cases hw (by simp) h
  | pull i =>
    obtain ⟨w, hw, h⟩ := Option.bind_eq_some_iff.1 h
    exact workerStep_cases hw (by simp) h
  | finish i =>
    obtain ⟨w, hw, h⟩ := Option.bind_eq_some_iff.1 h
    exact workerStep_cases hw (by simp) h
  | leave i wake =>
    obtain ⟨w, hw, h⟩ := Option.bind_eq_some_iff.1 h
    exact workerStep_cases hw (by simp) h
  | spurious i =>
    obtain ⟨w, hw, h⟩ := Option.bind_eq_some_iff.1 h
    exact workerStep_cases hw (by simp) h
  | lock k =>
    obtain ⟨w, hw, h⟩ := Option.bind_eq_some_iff.1 h
    exact waiterStep_cases hw (by simp) h
  | readLen k =>
    obtain ⟨w, hw, h⟩ := Option.bind_eq_some_iff.1 h
    exact waiterStep_cases hw (by simp) h
  | readWorking k =>
    obtain ⟨w, hw, h⟩ := Option.bind_eq_some_iff.1 h
    exact waiterStep_cases hw (by simp) h
  | spuriousWait k =>
    obtain ⟨w, hw, h⟩ := Option.bind_eq_some_iff.1 h
    exact waiterStep_cases hw (by simp) h

/-! ## What a signal leaves as it is

A woken thread goes on from where it slept: it has no job, is not counted and posts
nothing, before as after. So whatever is counted over the workers by one of these can be
read off their images. -/

/-- What waking does not change of one thread, a signal does not change of the list. -/
theorem signal_map {α β : Type} {blocked : α → Bool} {wake : α → α} {l l' : List α} {i : Option Nat}
    {f : α → β} (hf : ∀ x, blocked x = true → f (wake x) = f x)
    (h : signal blocked wake l i = some l') : l'.map f = l.map f := by
  rcases signal_cases h with ⟨-, rfl⟩ | ⟨as, x, bs, rfl, hx, rfl⟩
  · rfl
  · simp [hf x hx]

/-- The same of the worker that has posted and runs its job now. -/
theorem goOn_map {β : Type} {f : Worker → β} (hf : ∀ w, f w.posted = f w) (l : List Worker)
    (who : Option Nat) : (goOn l who).map f = l.map f := by
  cases who with
  | none => rfl
  | some i =>
    refine List.ext_getElem? fun j => ?_
    rw [goOn, List.getElem?_map, List.getElem?_map, List.getElem?_modify]
    cases l[j]? with
    | none => rfl
    | some w =>
      by_cases hij : i = j
      · simp [hij, hf]
      · simp [hij]

theorem filterMap_of_map {α β : Type} {l l' : List α} {f : α → Option β} (h : l'.map f = l.map f) :
    l'.filterMap f = l.filterMap f := by
  have hid := fun l : List α => (List.filterMap_map (f := f) (g := id) (l := l)).symm
  simp only [Function.id_comp] at hid
  rw [hid, hid, h]

theorem countP_of_map {α : Type} {l l' : List α} {p : α → Bool} (h : l'.map p = l.map p) :
    l'.countP p = l.countP p := by
  have hid := fun l : List α => (List.countP_map (p := id) (f := p) (l := l)).symm
  simp only [Function.id_comp] at hid
  rw [hid, hid, h]

theorem posted_job (w : Worker) : w.posted.job = w.job := by
  cases w <;> rfl

theorem posted_works (w : Worker) : w.posted.works = w.works := by
  cases w <;> rfl

theorem posted_isBlocked (w : Worker) : w.posted.isBlocked = w.isBlocked := by
  cases w <;> rfl

theorem eq_blocked {w : Worker} (h : w.isBlocked = true) : w = .blocked := by
  cases w <;> first | rfl | cases h

/-! ## Where the jobs are -/

/-- The number of jobs taken from the queue so far. -/
def Pool.started (s : Pool) : Nat := s.pushed - s.queue.len

/-- The queue holds the jobs not yet started, in order; those that are started are finished or
with a worker, each once. -/
structure Jobs (s : Pool) : Prop where
  len_le : s.queue.len ≤ s.pushed
  queue : s.queue.Holds s.started
  jobs : (s.finished ++ s.workers.filterMap Worker.job).Perm (List.range s.started)

/-- A job added is not started. -/
theorem Jobs.push_eq {s : Pool} (h : Jobs s) {queue : JobQueue} (hpush : s.queue.push s.pushed = some queue) :
    queue.len = s.queue.len + 1 ∧ queue.Holds s.started := by
  have hlen := h.len_le
  obtain ⟨q', hq, hlen', hheld⟩ := h.queue.push
  rw [show s.started + s.queue.len = s.pushed from Nat.sub_add_cancel hlen, hpush] at hq
  cases hq
  exact ⟨hlen', hheld⟩

theorem filterMap_middle (as : List Worker) (w : Worker) (bs : List Worker) :
    (as ++ w :: bs).filterMap Worker.job =
      as.filterMap Worker.job ++ (w.job.toList ++ bs.filterMap Worker.job) := by
  rw [List.filterMap_append, List.filterMap_cons]
  cases w.job <;> rfl

/-- The workers' jobs stay the same when one worker goes from `w` to `w'` with the same job. -/
theorem Jobs.same {s : Pool} (h : Jobs s) {s' : Pool} (hqueue : s'.queue = s.queue)
    (hpushed : s'.pushed = s.pushed) (hfinished : s'.finished = s.finished)
    (hjobs : s'.workers.filterMap Worker.job = s.workers.filterMap Worker.job) : Jobs s' := by
  have hstarted : s'.started = s.started := by
    unfold Pool.started
    rw [hqueue, hpushed]
  refine ⟨?_, ?_, ?_⟩
  · rw [hqueue, hpushed]
    exact h.len_le
  · rw [hqueue, hstarted]
    exact h.queue
  · rw [hfinished, hjobs, hstarted]
    exact h.jobs

/-- A pull gives no job or the first that is not started. -/
theorem Jobs.pull_eq {s : Pool} (h : Jobs s) {job : Option Nat} {post : Bool} {queue : JobQueue}
    (hpull : s.queue.pull = some (job, post, queue)) :
    job = none ∧ post = false ∧ s.queue.len = 0 ∧ queue = s.queue ∨
      job = some s.started ∧ 0 < s.queue.len ∧ post = decide (1 < s.queue.len) ∧
        queue.len = s.queue.len - 1 ∧ queue.Holds (s.started + 1) := by
  rcases h.queue.pull with ⟨hlen, hpull'⟩ | ⟨q', hpos, hlen, hheld, hpull'⟩
  · rw [hpull, Option.some.injEq, Prod.mk.injEq, Prod.mk.injEq] at hpull'
    obtain ⟨rfl, rfl, rfl⟩ := hpull'
    exact .inl ⟨rfl, rfl, hlen, rfl⟩
  · rw [hpull, Option.some.injEq, Prod.mk.injEq, Prod.mk.injEq] at hpull'
    obtain ⟨rfl, rfl, rfl⟩ := hpull'
    exact .inr ⟨rfl, hpos, rfl, hlen, hheld⟩

/-- A worker without a job takes what the queue gives. -/
theorem Jobs.taken {s s' : Pool} (h : Jobs s) {as bs : List Worker} {w w' : Worker} {job : Option Nat}
    {post : Bool} {queue : JobQueue} (hat : s.workers = as ++ w :: bs) (hw : w.job = none)
    (hpull : s.queue.pull = some (job, post, queue)) (hw' : w'.job = job) {poster : Option (Option Nat)}
    (hs' : s' = { s with queue, poster, workers := as ++ w' :: bs }) : Jobs s' := by
  subst hs'
  have hjobs := h.jobs
  rw [hat, filterMap_middle, hw] at hjobs
  rcases h.pull_eq hpull with ⟨rfl, -, hlen, rfl⟩ | ⟨rfl, hpos, -, hlen, hheld⟩
  · refine ⟨h.len_le, h.queue, ?_⟩
    simp only [filterMap_middle, hw']
    exact hjobs
  · have hle := h.len_le
    have hstarted : ∀ workers, ({ s with queue, poster, workers } : Pool).started = s.started + 1 := by
      intro workers
      simp only [Pool.started]
      omega
    refine ⟨?_, ?_, ?_⟩
    · simp only
      omega
    · rw [hstarted]
      exact hheld
    · rw [hstarted, List.range_succ]
      simp only [filterMap_middle, hw']
      refine List.Perm.trans ?_ (hjobs.append_right [s.started])
      simp only [Option.toList_some, Option.toList_none, List.nil_append, List.append_assoc]
      refine (List.Perm.append_left _ (List.Perm.append_left _ ?_))
      exact List.perm_append_comm

/-- Three steps move a job: it is added to the queue, taken from there by a worker, or done
with. In all others every worker keeps the job it has. -/
theorem Jobs.step {s s' : Pool} {a : Act} (h : Jobs s) (hm : Move s a s') : Jobs s' := by
  have hmiddle : ∀ {as w w' bs}, s.workers = as ++ w :: bs → w'.job = w.job →
      (as ++ w' :: bs).filterMap Worker.job = s.workers.filterMap Worker.job := by
    intro as w w' bs hat hjob
    rw [hat, filterMap_middle, filterMap_middle, hjob]
  cases hm with
  | @push queue hfree hpush =>
    obtain ⟨hlen, hheld⟩ := h.push_eq hpush
    have hle := h.len_le
    have hstarted : ∀ poster, ({ s with queue, poster, pushed := s.pushed + 1 } : Pool).started = s.started := by
      intro poster
      simp only [Pool.started]
      omega
    refine ⟨?_, ?_, ?_⟩
    · simp only
      omega
    · rw [hstarted]
      exact hheld
    · rw [hstarted]
      exact h.jobs
  | post hposter hsignal =>
    refine h.same rfl rfl rfl ?_
    rw [filterMap_of_map (goOn_map posted_job _ _), filterMap_of_map (signal_map ?_ hsignal)]
    intro w hw
    rw [eq_blocked hw]
    rfl
  | take hat hw _ =>
    refine h.same rfl rfl rfl (hmiddle hat ?_)
    rcases hw with rfl | rfl <;> rfl
  | sleep hat hw _ =>
    refine h.same rfl rfl rfl (hmiddle hat ?_)
    rcases hw with rfl | rfl <;> rfl
  | count hat _ => exact h.same rfl rfl rfl (hmiddle hat rfl)
  | @pullMore as bs job queue hat _ hpull =>
    exact h.taken hat rfl hpull (show (Worker.posting job).job = some job from rfl) rfl
  | @pullLast as bs job queue hat _ hpull =>
    exact h.taken hat rfl hpull (show (Worker.running job).job = job from rfl) rfl
  | @finish as bs job hat =>
    refine ⟨h.len_le, h.queue, ?_⟩
    have hjobs := h.jobs
    rw [hat, filterMap_middle] at hjobs
    refine List.Perm.trans ?_ hjobs
    simp only [filterMap_middle]
    rw [List.append_assoc]
    refine List.Perm.append_left _ ?_
    exact List.perm_append_comm_assoc _ _ _
  | leaveLast hat => exact h.same rfl rfl rfl (hmiddle hat rfl)
  | leave hat => exact h.same rfl rfl rfl (hmiddle hat rfl)
  | spurious hat => exact h.same rfl rfl rfl (hmiddle hat rfl)
  | _ => exact h.same rfl rfl rfl rfl

/-! ## The counters and the mutexes -/

/-- It is in `bsem_post`, with `rwmutex`. -/
def Worker.isPosting : Worker → Bool
  | .posting _ => true
  | _ => false

/-- The workers that are counted, the thread that holds `rwmutex` while it posts, and the one
waiter that may hold `thcount_lock`. -/
structure Locks (s : Pool) : Prop where
  working : s.working = s.workers.countP Worker.works
  posting : ∀ i, s.poster = some (some i) ↔ (s.workers.map Worker.isPosting)[i]? = some true
  one : s.waiters.countP Waiter.locks ≤ 1

theorem map_middle {β : Type} (f : Worker → β) (as : List Worker) (w w' : Worker) (bs : List Worker) (i : Nat) :
    ((as ++ w' :: bs).map f)[i]? = if i = as.length then some (f w') else ((as ++ w :: bs).map f)[i]? := by
  rw [List.map_append, List.map_append, List.map_cons, List.map_cons, getElem?_middle _ (f w),
    List.length_map]

theorem countP_middle {α : Type} (p : α → Bool) (as : List α) (x : α) (bs : List α) :
    (as ++ x :: bs).countP p = as.countP p + bs.countP p + if p x then 1 else 0 := by
  rw [List.countP_append, List.countP_cons]
  omega

/-- While `rwmutex` is free nobody posts. -/
theorem Locks.noPosting {s : Pool} (h : Locks s) (hfree : s.poster = none) (i : Nat) :
    (s.workers.map Worker.isPosting)[i]? ≠ some true := by
  intro hc
  have := (h.posting i).2 hc
  rw [hfree] at this
  cases this

/-- A worker goes from `w` to `w'`, neither in `bsem_post`. -/
theorem Locks.worker {s s' : Pool} (h : Locks s) {as bs : List Worker} {w w' : Worker}
    (hat : s.workers = as ++ w :: bs) (hat' : s'.workers = as ++ w' :: bs)
    (hw : w.isPosting = false) (hw' : w'.isPosting = false) (hposter : s'.poster = s.poster)
    (hwaiters : s'.waiters.countP Waiter.locks = s.waiters.countP Waiter.locks)
    (hworking : s'.working + (if w.works then 1 else 0) = s.working + if w'.works then 1 else 0) :
    Locks s' := by
  refine ⟨?_, fun i => ?_, hwaiters ▸ h.one⟩
  · have hcount := h.working
    rw [hat, countP_middle] at hcount
    rw [hat', countP_middle]
    omega
  · rw [hat', hposter, h.posting, hat, map_middle _ as w w' bs i]
    split
    · rename_i heq
      subst heq
      simp [hw, hw']
    · rfl

/-- A waiter goes from `w` to `w'`. -/
theorem Locks.waiter {s : Pool} (h : Locks s) {as bs : List Waiter} {w w' : Waiter}
    (hat : s.waiters = as ++ w :: bs) (hle : s.locked = false ∨ w'.locks = false ∨ w.locks = true) :
    Locks { s with waiters := as ++ w' :: bs } := by
  refine ⟨h.working, h.posting, ?_⟩
  have hone := h.one
  rw [hat, countP_middle] at hone
  simp only [countP_middle]
  rcases hle with hfree | hw' | hw
  · have hzero : s.waiters.countP Waiter.locks = 0 := by
      rw [List.countP_eq_zero]
      intro x hx hc
      have : s.locked = true := List.any_eq_true.2 ⟨x, hx, hc⟩
      rw [hfree] at this
      cases this
    rw [hat, countP_middle] at hzero
    split <;> omega
  · rw [hw', if_neg Bool.false_ne_true]
    omega
  · rw [hw, if_pos rfl] at hone
    split <;> omega

/-- The counter goes up with the worker that counts itself and down with the one that
leaves; `rwmutex` is taken by a push or a pull and given back by the post; a waiter gets
`thcount_lock` only while no other has it. -/
theorem Locks.step {s s' : Pool} {a : Act} (h : Locks s) (hm : Move s a s') : Locks s' := by
  cases hm with
  | push hfree _ =>
    refine ⟨h.working, fun i => ?_, h.one⟩
    exact iff_of_false (fun hc => by cases hc) (h.noPosting hfree i)
  | @post who wake workers hposter hsignal =>
    have hworks : workers.map Worker.works = s.workers.map Worker.works :=
      signal_map (fun w hw => by rw [eq_blocked hw]; rfl) hsignal
    have hposting : workers.map Worker.isPosting = s.workers.map Worker.isPosting :=
      signal_map (fun w hw => by rw [eq_blocked hw]; rfl) hsignal
    refine ⟨?_, fun i => iff_of_false (fun hc => by cases hc) fun hc => ?_, h.one⟩
    · rw [h.working]
      simp only
      rw [countP_of_map (goOn_map posted_works _ _), countP_of_map hworks]
    · -- the post came from an added job or from a worker, which runs its job now
      cases who with
      | none =>
        rw [goOn, hposting, ← h.posting, hposter] at hc
        cases hc
      | some j =>
        by_cases hij : i = j
        · subst hij
          simp only [goOn, List.getElem?_map, List.getElem?_modify, if_true] at hc
          cases hw : workers[i]? with
          | none => simp [hw] at hc
          | some w => cases w <;> simp [hw, Worker.posted, Worker.isPosting] at hc
        · simp only [goOn, List.getElem?_map, List.getElem?_modify, if_neg (Ne.symm hij),
            Option.map_eq_map, Option.map_id'] at hc
          rw [← List.getElem?_map, hposting, ← h.posting, hposter] at hc
          cases hc
          exact hij rfl
  | take hat hw _ =>
    refine h.worker hat rfl ?_ rfl rfl rfl ?_
    · rcases hw with rfl | rfl <;> rfl
    · rcases hw with rfl | rfl <;> rfl
  | sleep hat hw _ =>
    refine h.worker hat rfl ?_ rfl rfl rfl ?_
    · rcases hw with rfl | rfl <;> rfl
    · rcases hw with rfl | rfl <;> rfl
  | count hat _ => exact h.worker hat rfl rfl rfl rfl rfl rfl
  | @pullMore as bs job queue hat hfree hpull =>
    refine ⟨?_, fun i => ?_, h.one⟩
    · have hcount := h.working
      rw [hat, countP_middle] at hcount
      simp only [countP_middle]
      exact hcount
    · have hno := h.noPosting hfree i
      rw [hat] at hno
      rw [map_middle _ as .counted, Option.some.injEq, Option.some.injEq]
      split
      · rename_i heq
        simp [heq, Worker.isPosting]
      · rename_i hne
        exact iff_of_false (fun hc => hne hc.symm) hno
  | pullLast hat _ _ => exact h.worker hat rfl rfl rfl rfl rfl rfl
  | finish hat => exact h.worker hat rfl rfl rfl rfl rfl rfl
  | @leaveLast as bs wake waiters hat _ hworking hsignal =>
    have hpos : 0 < s.working := by
      rw [h.working, hat, countP_middle]
      simp [Worker.works]
    refine h.worker hat rfl rfl rfl rfl ?_ ?_
    · exact countP_of_map (signal_map (fun w _ => by cases w <;> rfl) hsignal)
    · simp only [Worker.works, if_true]
      simp
      omega
  | @leave as bs hat _ hworking =>
    refine h.worker hat rfl rfl rfl rfl rfl ?_
    simp only [Worker.works, if_true]
    simp
    omega
  | spurious hat => exact h.worker hat rfl rfl rfl rfl rfl rfl
  | call =>
    refine ⟨h.working, h.posting, ?_⟩
    simp only [List.countP_append]
    exact h.one
  | lock hat _ hlock => exact h.waiter hat (.inl hlock)
  | readLenWait hat _ => exact h.waiter hat (.inr (.inl rfl))
  | readLen hat _ => exact h.waiter hat (.inr (.inr rfl))
  | readWorkingWait hat _ => exact h.waiter hat (.inr (.inl rfl))
  | readWorking hat _ => exact h.waiter hat (.inr (.inl rfl))
  | spuriousWait hat => exact h.waiter hat (.inr (.inl rfl))

/-! ## The waiters -/

/-- What a waiter knows: how many jobs had been added when it called, that those it saw added
when it found the queue empty have been started, and, when it has returned, are finished. -/
def Waiter.Sound (s : Pool) : Waiter → Prop
  | .calling since | .reading since | .blocked since | .woken since => since ≤ s.pushed
  | .sawEmpty since seen => since ≤ seen ∧ seen ≤ s.started
  | .returned since seen => since ≤ seen ∧ ∀ j < seen, j ∈ s.finished

/-- It knows no less when jobs have been added, started and finished. -/
theorem Waiter.Sound.mono {s s' : Pool} {w : Waiter} (h : w.Sound s) (hpushed : s.pushed ≤ s'.pushed)
    (hstarted : s.started ≤ s'.started) (hfinished : ∀ j ∈ s.finished, j ∈ s'.finished) : w.Sound s' := by
  cases w with
  | sawEmpty since seen => exact ⟨h.1, Nat.le_trans h.2 hstarted⟩
  | returned since seen => exact ⟨h.1, fun j hj => hfinished j (h.2 j hj)⟩
  | _ => exact Nat.le_trans h hpushed

theorem Waiter.Sound.woken {s : Pool} {w : Waiter} (h : w.Sound s) : w.wake.Sound s := by
  cases w <;> exact h

/-- No step takes a job back. -/
theorem Jobs.mono {s s' : Pool} {a : Act} (h : Jobs s) (hm : Move s a s') :
    s.pushed ≤ s'.pushed ∧ s.started ≤ s'.started ∧ ∀ j ∈ s.finished, j ∈ s'.finished := by
  have hpull : ∀ {job post queue}, s.queue.pull = some (job, post, queue) →
      s.started ≤ s.pushed - queue.len := by
    intro job post queue hpull
    rcases h.pull_eq hpull with ⟨-, -, -, rfl⟩ | ⟨-, -, -, hlen, -⟩
    · exact Nat.le_refl _
    · unfold Pool.started
      omega
  cases hm with
  | @push queue _ hpush =>
    have hlen := (h.push_eq hpush).1
    refine ⟨Nat.le_succ _, ?_, fun j hj => hj⟩
    simp only [Pool.started]
    omega
  | pullMore _ _ hq => exact ⟨Nat.le_refl _, hpull hq, fun j hj => hj⟩
  | pullLast _ _ hq => exact ⟨Nat.le_refl _, hpull hq, fun j hj => hj⟩
  | finish _ => exact ⟨Nat.le_refl _, Nat.le_refl _, fun j hj => List.mem_append_left _ hj⟩
  | _ => exact ⟨Nat.le_refl _, Nat.le_refl _, fun j hj => hj⟩

/-- While no worker is counted, all jobs started are finished. -/
theorem finished_of_idle {s : Pool} (hj : Jobs s) (hl : Locks s) (hzero : s.working = 0) :
    s.finished.Perm (List.range s.started) := by
  have hnone : s.workers.filterMap Worker.job = [] := by
    rw [List.filterMap_eq_nil_iff]
    intro w hw
    have hworks := List.countP_eq_zero.1 (hl.working.symm.trans hzero) w hw
    cases w <;> first | rfl | exact absurd rfl hworks
  have hjobs := hj.jobs
  rw [hnone, List.append_nil] at hjobs
  exact hjobs

/-- The two reads: `len = 0` means that all jobs added have been started, and
`num_threads_working = 0` that all started are finished. Between them more may be added
and started, so that the second is about no fewer jobs than the first. -/
theorem sound_step {s s' : Pool} {a : Act} (hj : Jobs s) (hl : Locks s)
    (h : ∀ w ∈ s.waiters, w.Sound s) (hm : Move s a s') : ∀ w ∈ s'.waiters, w.Sound s' := by
  obtain ⟨hpushed, hstarted, hfinished⟩ := hj.mono hm
  have hmono : ∀ w ∈ s.waiters, w.Sound s' := fun w hw => (h w hw).mono hpushed hstarted hfinished
  -- one waiter goes on
  have hone : ∀ {as w w' bs}, s.waiters = as ++ w :: bs → w'.Sound s' →
      ∀ x ∈ as ++ w' :: bs, x.Sound s' := by
    intro as w w' bs hat hw' x hx
    rcases List.mem_append.1 hx with hx | hx
    · exact hmono x (hat ▸ List.mem_append_left _ hx)
    · rcases List.mem_cons.1 hx with rfl | hx
      · exact hw'
      · exact hmono x (hat ▸ List.mem_append_right _ (List.mem_cons_of_mem _ hx))
  have hat' : ∀ {as w bs}, s.waiters = as ++ w :: bs → w.Sound s' := fun hat =>
    hmono _ (hat ▸ List.mem_append_right _ List.mem_cons_self)
  cases hm with
  | leaveLast _ _ _ hsignal =>
    rcases signal_cases hsignal with ⟨-, rfl⟩ | ⟨as, w, bs, hat, -, rfl⟩
    · exact hmono
    · exact hone hat (hat' hat).woken
  | call =>
    intro w hw
    rcases List.mem_append.1 hw with hw | hw
    · exact hmono w hw
    · obtain rfl := List.mem_singleton.1 hw
      exact Nat.le_refl _
  | lock hat hw _ =>
    have hsound := hat' hat
    rcases hw with rfl | rfl <;> exact hone hat hsound
  | readLenWait hat _ =>
    have hsound := hat' hat
    exact hone hat hsound
  | @readLen as bs since hat hlen =>
    have hsince : since ≤ s.pushed := hat' hat
    refine hone hat ⟨hsince, ?_⟩
    simp only [Pool.started]
    omega
  | readWorkingWait hat _ =>
    have hsound := hat' hat
    exact hone hat (Nat.le_trans hsound.1 (Nat.le_trans hsound.2 (Nat.sub_le ..)))
  | readWorking hat hworking =>
    have hsound := hat' hat
    refine hone hat ⟨hsound.1, fun j hjs => ?_⟩
    exact (finished_of_idle hj hl hworking).mem_iff.2
      (List.mem_range.2 (Nat.lt_of_lt_of_le hjs hsound.2))
  | spuriousWait hat =>
    have hsound := hat' hat
    exact hone hat hsound
  | _ => exact hmono

/-! ## Runs -/

/-- What holds in every state of a pool. -/
structure Inv (s : Pool) : Prop where
  jobs : Jobs s
  locks : Locks s
  sound : ∀ w ∈ s.waiters, w.Sound s

theorem inv_init (threads : Nat) : Inv (init threads) := by
  have hjob : ∀ n, (List.replicate n Worker.idle).filterMap Worker.job = [] := by
    intro n
    rw [List.filterMap_eq_nil_iff]
    intro w hw
    rw [List.eq_of_mem_replicate hw]
    rfl
  refine ⟨⟨Nat.le_refl 0, ⟨rfl, rfl, fun j h1 h2 => ?_⟩, ?_⟩, ⟨?_, fun i => ?_, Nat.zero_le 1⟩,
    fun w hw => absurd hw List.not_mem_nil⟩
  · simp only [init, JobQueue.empty, Pool.started] at h2
    omega
  · simp only [init, hjob]
    exact .refl _
  · refine (List.countP_eq_zero.2 fun w hw => ?_).symm
    rw [List.eq_of_mem_replicate hw]
    exact Bool.false_ne_true
  · refine iff_of_false (fun hc => by cases hc) fun hc => ?_
    simp only [init, List.map_replicate, List.getElem?_replicate] at hc
    split at hc <;> cases hc

/-- One step. -/
theorem inv_step {s s' : Pool} {a : Act} (h : Inv s) (hs : step s a = some s') : Inv s' :=
  have hm := step_cases hs
  ⟨h.jobs.step hm, h.locks.step hm, sound_step h.jobs h.locks h.sound hm⟩

/-- A run. -/
theorem reachable_inv {threads : Nat} {s : Pool} (h : (pool threads).Reachable s) : Inv s := by
  refine h.invariant (I := Inv) (fun s hs => ?_) fun _ _ _ hi hs => inv_step hi hs
  rw [show s = init threads from hs]
  exact inv_init threads

/-- The steps in order. -/
def steps (s : Pool) (as : List Act) : Option Pool := as.foldlM step s

/-- A list of steps that can be taken is a run. -/
theorem reachable_steps {threads : Nat} {s s' : Pool} {as : List Act} (h : (pool threads).Reachable s)
    (hs : steps s as = some s') : (pool threads).Reachable s' := by
  induction as generalizing s with
  | nil =>
    cases hs
    exact h
  | cons a as ih =>
    rw [steps, List.foldlM_cons] at hs
    obtain ⟨s1, h1, hs⟩ := Option.bind_eq_some_iff.1 hs
    exact ih (h.step h1) hs

/-- Every job is in one place: in the queue, with one worker, or finished; and the queue holds
the jobs that are not started in the order in which they were added. -/
theorem jobs_once {threads : Nat} {s : Pool} (h : (pool threads).Reachable s) :
    (s.finished ++ s.workers.filterMap Worker.job ++ List.range' s.started s.queue.len).Perm
        (List.range s.pushed) ∧
      s.queue.Holds s.started ∧
      ∀ i s', step s (.pull i) = some s' → 0 < s.queue.len →
        s'.workers[i]?.bind Worker.job = some s.started ∧ s'.started = s.started + 1 := by
  obtain ⟨hj, hl, -⟩ := reachable_inv h
  have hle := hj.len_le
  refine ⟨?_, hj.queue, fun i s' hs hpos => ?_⟩
  · refine (hj.jobs.append_right _).trans ?_
    have hsplit : List.range s.started ++ List.range' s.started s.queue.len = List.range s.pushed := by
      have happend := List.range'_append_1 (s := 0) (m := s.started) (n := s.queue.len)
      rw [Nat.zero_add, show s.started + s.queue.len = s.pushed from Nat.sub_add_cancel hle] at happend
      rw [List.range_eq_range', List.range_eq_range', happend]
    rw [hsplit]
  · -- the job taken is the first of the queue
    have hnext : ∀ {job post queue}, s.queue.pull = some (job, post, queue) →
        job = some s.started ∧ s.pushed - queue.len = s.started + 1 := by
      intro job post queue hpull
      rcases hj.pull_eq hpull with ⟨-, -, hlen, -⟩ | ⟨hjob, -, -, hlen, -⟩
      · omega
      · refine ⟨hjob, ?_⟩
        unfold Pool.started
        omega
    cases step_cases hs with
    | pullMore _ _ hpull =>
      obtain ⟨hjob, hstarted⟩ := hnext hpull
      exact ⟨by simpa [Worker.job] using hjob, hstarted⟩
    | pullLast _ _ hpull =>
      obtain ⟨hjob, hstarted⟩ := hnext hpull
      exact ⟨by simpa [Worker.job] using hjob, hstarted⟩

/-- Two jobs, of which a worker has taken the first. -/
theorem jobs_once_two : ∃ s : Pool, s.workers = [.posting 0] ∧ s.pushed = 2 ∧
    (s.finished ++ s.workers.filterMap Worker.job ++ List.range' s.started s.queue.len).Perm
      (List.range s.pushed) := by
  obtain ⟨s, hs⟩ : ∃ s, steps (init 1) [.push, .post none, .push, .post none, .enter 0, .count 0,
    .pull 0] = some s := ⟨_, rfl⟩
  have hend := (jobs_once (reachable_steps (LTS.Reachable.init rfl) hs)).1
  cases hs
  exact ⟨_, rfl, rfl, hend⟩

/-- `thpool_wait` returns only when all jobs are finished that had been added before it was
called. -/
theorem wait_finished {threads : Nat} {s : Pool} (h : (pool threads).Reachable s) {since seen : Nat}
    (hw : .returned since seen ∈ s.waiters) : since ≤ seen ∧ ∀ j < seen, j ∈ s.finished :=
  (reachable_inv h).sound _ hw

/-- A waiter behind one job. -/
theorem wait_finished_one : ∃ s : Pool, .returned 1 1 ∈ s.waiters ∧ 0 ∈ s.finished := by
  obtain ⟨s, hs⟩ : ∃ s, steps (init 1) [.push, .post none, .call, .enter 0, .count 0, .pull 0,
    .finish 0, .leave 0 none, .lock 0, .readLen 0, .readWorking 0] = some s := ⟨_, rfl⟩
  have hw : .returned 1 1 ∈ s.waiters := by
    cases hs
    exact List.mem_cons_self
  exact ⟨s, hw, (wait_finished (reachable_steps (LTS.Reachable.init rfl) hs) hw).2 0 Nat.one_pos⟩

end FfiRpc.Thpool
