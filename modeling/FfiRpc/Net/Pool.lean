import FfiRpc.Core.Lists
import FfiRpc.Core.LTS

/-!
# The thread pool

`thpool.c`, which runs the jobs of the server (rpc_server.c:118, 187, 206): any number of
workers, of threads that add jobs, and of threads in `thpool_wait`. A step is what a thread
does between taking a mutex and giving it back, or one access to a shared variable; a step
that needs a mutex is taken only while no other thread holds it. Jobs are numbered in the order
in which they are added.

`pthread_cond_signal` wakes one of the waiting threads, if there is one, and a thread may wake
up without a signal. The pool is never destroyed, so that `threads_keepalive` stays 1.
-/
namespace FfiRpc.Thpool

/-! ## The queue of jobs -/

/-- The jobs are linked by `prev`, from the front to the rear.
mirrors src/C-Thread-Pool/thpool.c:72-87 (`job`, `jobqueue`) -/
structure JobQueue where
  front : Option Nat
  rear : Option Nat
  len : Nat
  prev : Nat → Option Nat

def JobQueue.empty : JobQueue := { front := none, rear := none, len := 0, prev := fun _ => none }

/-- The body under the mutex, up to `bsem_post`; `none` where NULL would be followed.
mirrors src/C-Thread-Pool/thpool.c:456-477 (`jobqueue_push`) -/
def JobQueue.push (q : JobQueue) (newjob : Nat) : Option JobQueue :=
  let q := { q with prev := Function.update q.prev newjob none }
  match q.len with
  | 0 => some { q with front := some newjob, rear := some newjob, len := q.len + 1 }
  | _ => q.rear.map fun rear =>
    { q with prev := Function.update q.prev rear (some newjob), rear := some newjob, len := q.len + 1 }

/-- The job, whether the semaphore is posted, and the queue.
mirrors src/C-Thread-Pool/thpool.c:483-509 (`jobqueue_pull`) -/
def JobQueue.pull (q : JobQueue) : Option (Option Nat × Bool × JobQueue) :=
  match q.len with
  | 0 => some (q.front, false, q)
  | 1 => some (q.front, false, { q with front := none, rear := none, len := 0 })
  | _ => q.front.map fun job => (some job, true, { q with front := q.prev job, len := q.len - 1 })

/-! ## The threads -/

/-- Where a worker is in `thread_do`: before `bsem_wait`, in it on the condition variable, woken
up, past it, counted as working, in `jobqueue_pull` before its `bsem_post`, running a job, or
done with it.
mirrors src/C-Thread-Pool/thpool.c:371-399 (`thread_do`) -/
inductive Worker where
  | idle
  | blocked
  | woken
  | taken
  | counted
  | posting (job : Nat)
  | running (job : Option Nat)
  | leaving
  deriving DecidableEq, Repr

/-- Where a caller is in `thpool_wait`; `since` and `seen` are the numbers of jobs that had
been added when it called, and when it last read `len`.
mirrors src/C-Thread-Pool/thpool.c:216-222 (`thpool_wait`) -/
inductive Waiter where
  | calling (since : Nat)
  | reading (since : Nat)
  | sawEmpty (since seen : Nat)
  | blocked (since : Nat)
  | woken (since : Nat)
  | returned (since seen : Nat)
  deriving DecidableEq, Repr

/-- It holds `thcount_lock`. -/
def Waiter.locks : Waiter → Bool
  | .reading _ | .sawEmpty _ _ => true
  | _ => false

/-- The job the worker has taken from the queue and not finished. -/
def Worker.job : Worker → Option Nat
  | .posting job => some job
  | .running job => job
  | _ => none

/-- It is counted in `num_threads_working`. -/
def Worker.works : Worker → Bool
  | .counted | .posting _ | .running _ | .leaving => true
  | _ => false

/-- `v` is the semaphore `has_jobs`; `poster` holds `rwmutex` and is about to post the
semaphore: a thread that added a job, or a worker. `pushed` and `finished` are not in the code:
the number of jobs added, and the jobs that have been run. -/
structure Pool where
  queue : JobQueue
  v : Bool
  poster : Option (Option Nat)
  working : Nat
  workers : List Worker
  waiters : List Waiter
  pushed : Nat
  finished : List Nat

def Pool.locked (s : Pool) : Bool := s.waiters.any Waiter.locks

/-- After `thpool_init`.
mirrors src/C-Thread-Pool/thpool.c:140-191 (`thpool_init`) -/
def init (threads : Nat) : Pool :=
  { queue := .empty, v := false, poster := none, working := 0,
    workers := List.replicate threads .idle, waiters := [], pushed := 0, finished := [] }

/-! ## Steps -/

inductive Act where
  /-- `thpool_add_work`, up to the `bsem_post` -/
  | push
  /-- `bsem_post`, which wakes the worker `wake` -/
  | post (wake : Option Nat)
  /-- `bsem_wait`, from its start or from a wake-up to its next wait or its end -/
  | enter (i : Nat)
  /-- `num_threads_working++` -/
  | count (i : Nat)
  | pull (i : Nat)
  /-- the job returns -/
  | finish (i : Nat)
  /-- `num_threads_working--`, which wakes the waiter `wake` when it gives 0 -/
  | leave (i : Nat) (wake : Option Nat)
  /-- another thread calls `thpool_wait` -/
  | call
  | lock (k : Nat)
  | readLen (k : Nat)
  | readWorking (k : Nat)
  /-- a wake-up without a signal -/
  | spurious (i : Nat)
  | spuriousWait (k : Nat)
  deriving DecidableEq, Repr

/-- `pthread_cond_signal` to the threads of `l`. -/
def signal {α : Type} (blocked : α → Bool) (wake : α → α) (l : List α) : Option Nat → Option (List α)
  | none => if l.any blocked then none else some l
  | some i => l[i]?.bind fun x => if blocked x then some (l.set i (wake x)) else none

def Worker.isBlocked : Worker → Bool
  | .blocked => true
  | _ => false

def Waiter.isBlocked : Waiter → Bool
  | .blocked _ => true
  | _ => false

def Waiter.wake : Waiter → Waiter
  | .blocked since => .woken since
  | w => w

/-- The worker goes on from its `bsem_post`. -/
def Worker.posted : Worker → Worker
  | .posting job => .running (some job)
  | w => w

/-- The thread that held `rwmutex` goes on. -/
def goOn (workers : List Worker) : Option Nat → List Worker
  | none => workers
  | some i => workers.modify i Worker.posted

/-- One step of the worker `i`, at `w`. -/
def workerStep (s : Pool) (i : Nat) (w : Worker) : Act → Option Pool
  | .enter _ =>
    if w = .idle ∨ w = .woken then
      if s.v then some { s with v := false, workers := s.workers.set i .taken }
      else some { s with workers := s.workers.set i .blocked }
    else none
  | .count _ =>
    if w = .taken ∧ s.locked = false then
      some { s with working := s.working + 1, workers := s.workers.set i .counted }
    else none
  | .pull _ =>
    if w = .counted ∧ s.poster = none then
      s.queue.pull.bind fun r =>
        match r with
        | (some job, true, queue) =>
          some { s with queue, poster := some (some i), workers := s.workers.set i (.posting job) }
        | (job, _, queue) => some { s with queue, workers := s.workers.set i (.running job) }
    else none
  | .finish _ =>
    match w with
    | .running job =>
      some { s with workers := s.workers.set i .leaving, finished := s.finished ++ job.toList }
    | _ => none
  | .leave _ wake =>
    if w = .leaving ∧ s.locked = false then
      if s.working - 1 = 0 then
        (signal Waiter.isBlocked Waiter.wake s.waiters wake).map fun waiters =>
          { s with working := s.working - 1, workers := s.workers.set i .idle, waiters }
      else if wake = none then
        some { s with working := s.working - 1, workers := s.workers.set i .idle }
      else none
    else none
  | .spurious _ =>
    if w = .blocked then some { s with workers := s.workers.set i .woken } else none
  | _ => none

/-- One step of the waiter `k`, at `w`. -/
def waiterStep (s : Pool) (k : Nat) (w : Waiter) : Act → Option Pool
  | .lock _ =>
    match w with
    | .calling since | .woken since =>
      if s.locked = false then some { s with waiters := s.waiters.set k (.reading since) } else none
    | _ => none
  | .readLen _ =>
    match w with
    | .reading since =>
      if s.queue.len ≠ 0 then some { s with waiters := s.waiters.set k (.blocked since) }
      else some { s with waiters := s.waiters.set k (.sawEmpty since s.pushed) }
    | _ => none
  | .readWorking _ =>
    match w with
    | .sawEmpty since seen =>
      if s.working ≠ 0 then some { s with waiters := s.waiters.set k (.blocked since) }
      else some { s with waiters := s.waiters.set k (.returned since seen) }
    | _ => none
  | .spuriousWait _ =>
    match w with
    | .blocked since => some { s with waiters := s.waiters.set k (.woken since) }
    | _ => none
  | _ => none

/-- mirrors src/C-Thread-Pool/thpool.c:195-222, 371-399, 456-509, 546-571 -/
def step (s : Pool) (a : Act) : Option Pool :=
  match a with
  | .push =>
    if s.poster = none then
      (s.queue.push s.pushed).map fun queue =>
        { s with queue, poster := some none, pushed := s.pushed + 1 }
    else none
  | .post wake =>
    s.poster.bind fun who =>
      (signal Worker.isBlocked (fun _ => .woken) s.workers wake).map fun workers =>
        { s with v := true, poster := none, workers := goOn workers who }
  | .enter i | .count i | .pull i | .finish i | .leave i _ | .spurious i =>
    s.workers[i]?.bind fun w => workerStep s i w a
  | .call => some { s with waiters := s.waiters ++ [.calling s.pushed] }
  | .lock k | .readLen k | .readWorking k | .spuriousWait k =>
    s.waiters[k]?.bind fun w => waiterStep s k w a

/-- A pool of `threads` workers. -/
def pool (threads : Nat) : LTS Pool Act := .ofFn (· = init threads) step

end FfiRpc.Thpool
