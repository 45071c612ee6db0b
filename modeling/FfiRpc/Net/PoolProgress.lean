import Mathlib.Algebra.GroupWithZero.Nat
import FfiRpc.Net.PoolLaws

/-!
# The thread pool comes to rest

No wake-up is lost between adding a job and a worker (`Awake`): while jobs are in the queue, the
semaphore is up, is about to be put up, or has been taken by a worker on its way to the queue;
and while it is up not all workers sleep.

The steps of the workers, of posting threads and of waiters alone come to an end from every
state, in whichever order they are taken (`comes_to_rest`), and where none is possible any more
every job has been run (`rest_finished`). A waiter that is alone has then returned
(`rest_returned`). Of two waiters one may be left (`wait_missed`): the last worker to finish
signals `threads_all_idle` once, to one of them.
-/
namespace FfiRpc.Thpool

/-- A step of a thread that is inside the pool's functions, other than a wake-up without a
signal. -/
def Act.internal : Act → Bool
  | .push | .call | .spurious _ | .spuriousWait _ => false
  | _ => true

/-! ## The semaphore

It is binary: two posts may come to one. So nothing can be said about how often it is put
up, only that while there is a job somebody is, or will be, on the way to it. -/

/-- It has taken the semaphore and not yet looked at the queue. -/
def Worker.fetches : Worker → Bool
  | .taken | .counted => true
  | _ => false

/-- While jobs wait, the semaphore is up, about to be put up, or taken by a worker that has not
looked at the queue yet; and while it is up, not all workers sleep. -/
structure Awake (s : Pool) : Prop where
  token : 0 < s.queue.len → s.v = true ∨ s.poster ≠ none ∨ ∃ w ∈ s.workers, w.fetches = true
  awake : s.v = true → s.workers = [] ∨ ∃ w ∈ s.workers, w.isBlocked = false

theorem mem_middle {α : Type} {as bs : List α} {x y z : α} (h : z ∈ as ++ x :: bs) (hne : z ≠ x) :
    z ∈ as ++ y :: bs := by
  rcases List.mem_append.1 h with h | h
  · exact List.mem_append_left _ h
  · rcases List.mem_cons.1 h with rfl | h
    · exact absurd rfl hne
    · exact List.mem_append_right _ (List.mem_cons_of_mem _ h)

theorem self_mem_middle {α : Type} (as : List α) (x : α) (bs : List α) : x ∈ as ++ x :: bs :=
  List.mem_append_right _ List.mem_cons_self

/-- One worker goes on, and the semaphore and the queue stay as they are. -/
theorem Awake.worker {s s' : Pool} (h : Awake s) {as bs : List Worker} {w w' : Worker}
    (hat : s.workers = as ++ w :: bs) (hat' : s'.workers = as ++ w' :: bs)
    (hfetches : w.fetches = true → w'.fetches = true) (hblocked : s.v = true → w'.isBlocked = false)
    (hqueue : s'.queue = s.queue) (hv : s'.v = s.v) (hposter : s'.poster = s.poster) : Awake s' := by
  refine ⟨fun hlen => ?_, fun hup => .inr ⟨w', hat' ▸ self_mem_middle as w' bs, hblocked (hv ▸ hup)⟩⟩
  rw [hv, hposter]
  refine (h.token (hqueue ▸ hlen)).imp_right (Or.imp_right fun hex => ?_)
  obtain ⟨x, hx, hfetch⟩ := hex
  rw [hat] at hx
  by_cases hxw : x = w
  · exact ⟨w', hat' ▸ self_mem_middle as w' bs, hfetches (hxw ▸ hfetch)⟩
  · exact ⟨x, hat' ▸ mem_middle hx hxw, hfetch⟩

/-- A worker that sleeps has found the semaphore down; one that pulls and leaves jobs behind
posts; a signal wakes one that sleeps. -/
theorem Awake.step {s s' : Pool} {a : Act} (hj : Jobs s) (h : Awake s) (hm : Move s a s') : Awake s' := by
  cases hm with
  | push => exact ⟨fun _ => .inr (.inl (Option.some_ne_none _)), h.awake⟩
  | @post who wake workers hposter hsignal =>
    refine ⟨fun _ => .inl rfl, fun _ => ?_⟩
    have hmap : (goOn workers who).map Worker.isBlocked = workers.map Worker.isBlocked :=
      goOn_map posted_isBlocked _ _
    have hex : ∀ w ∈ workers, w.isBlocked = false → ∃ w ∈ goOn workers who, w.isBlocked = false := by
      intro w hw hfalse
      have hmem : false ∈ (goOn workers who).map Worker.isBlocked :=
        hmap ▸ List.mem_map.2 ⟨w, hw, hfalse⟩
      exact List.mem_map.1 hmem
    rcases signal_cases hsignal with ⟨hnone, rfl⟩ | ⟨as, w, bs, -, -, rfl⟩
    · cases hw : s.workers with
      | nil =>
        left
        rw [hw] at hmap
        exact List.map_eq_nil_iff.1 hmap
      | cons w ws =>
        right
        rw [hw] at hex hnone
        exact hex w List.mem_cons_self (hnone w List.mem_cons_self)
    · exact .inr (hex .woken (self_mem_middle as .woken bs) rfl)
  | @take as w bs hat hw hv =>
    exact ⟨fun _ => .inr (.inr ⟨.taken, self_mem_middle as .taken bs, rfl⟩), fun hc => by cases hc⟩
  | sleep hat hw hv =>
    refine h.worker hat rfl ?_ (fun hc => ?_) rfl rfl rfl
    · intro hc
      rcases hw with rfl | rfl <;> cases hc
    · rw [hv] at hc
      cases hc
  | count hat _ => exact h.worker hat rfl (fun _ => rfl) (fun _ => rfl) rfl rfl rfl
  | pullMore hat _ hpull =>
    exact ⟨fun _ => .inr (.inl (Option.some_ne_none _)), fun _ => .inr ⟨_, self_mem_middle .., rfl⟩⟩
  | pullLast hat _ hpull =>
    refine ⟨fun hpos => ?_, fun _ => .inr ⟨_, self_mem_middle .., rfl⟩⟩
    rcases hj.pull_eq hpull with ⟨-, -, hlen, rfl⟩ | ⟨-, -, hpost, hlen, -⟩
    · simp only at hpos
      omega
    · have hle := of_decide_eq_false hpost.symm
      simp only at hpos
      omega
  | finish hat => exact h.worker hat rfl (fun hc => by cases hc) (fun _ => rfl) rfl rfl rfl
  | leaveLast hat => exact h.worker hat rfl (fun hc => by cases hc) (fun _ => rfl) rfl rfl rfl
  | leave hat => exact h.worker hat rfl (fun hc => by cases hc) (fun _ => rfl) rfl rfl rfl
  | spurious hat => exact h.worker hat rfl (fun hc => by cases hc) (fun _ => rfl) rfl rfl rfl
  | _ => exact ⟨h.token, h.awake⟩

theorem reachable_awake {threads : Nat} {s : Pool} (h : (pool threads).Reachable s) : Awake s := by
  have hboth : Inv s ∧ Awake s := by
    refine h.invariant (I := fun s => Inv s ∧ Awake s) (fun s hs => ?_) fun s a s' hi hs => ?_
    · rw [show s = init threads from hs]
      refine ⟨inv_init threads, fun hc => absurd hc (Nat.lt_irrefl 0), fun hc => by cases hc⟩
    · exact ⟨inv_step hi.1 hs, hi.2.step hi.1.jobs (step_cases hs)⟩
  exact hboth.2

/-! ## Every run of internal steps ends

By a measure that every step lowers: how far each thread is from its next sleep, with room
for the rounds that the jobs and posts still to come may cost. -/

/-- How far a worker is from sleeping. -/
def Worker.weight : Worker → Nat
  | .blocked => 0
  | .idle | .woken => 1
  | .leaving => 6
  | .running _ => 7
  | .posting _ => 8
  | .counted => 9
  | .taken => 10

/-- How far a waiter is from its next wait, or its end. -/
def Waiter.weight : Waiter → Nat
  | .blocked _ | .returned _ _ => 0
  | .sawEmpty _ _ => 1
  | .reading _ => 2
  | .calling _ | .woken _ => 3

/-- More than the number of steps that can follow. A job in the queue, and the post that it is
added with, may each put the semaphore up once, which may send one worker round. -/
def Pool.potential (s : Pool) : Nat :=
  12 * s.queue.len + (if s.poster.isSome then 12 else 0) + (if s.v then 10 else 0) +
    (s.workers.map Worker.weight).sum + (s.waiters.map Waiter.weight).sum

theorem sum_middle {α : Type} (f : α → Nat) (as : List α) (x : α) (bs : List α) :
    ((as ++ x :: bs).map f).sum = (as.map f).sum + (bs.map f).sum + f x := by
  rw [List.map_append, List.map_cons, List.sum_append, List.sum_cons]
  omega

theorem goOn_weight (l : List Worker) (who : Option Nat) :
    ((goOn l who).map Worker.weight).sum ≤ (l.map Worker.weight).sum := by
  have hposted : ∀ w : Worker, w.posted.weight ≤ w.weight := by
    intro w
    cases w with
    | posting job => exact Nat.le_succ 7
    | _ => exact Nat.le_refl _
  cases who with
  | none => exact Nat.le_refl _
  | some i =>
    cases hw : l[i]? with
    | none =>
      have hsame : goOn l (some i) = l := List.modify_eq_self (List.getElem?_eq_none_iff.1 hw)
      exact Nat.le_of_eq (by rw [hsame])
    | some w =>
      obtain ⟨as, bs, rfl, rfl⟩ := split_at hw
      have hmodify : (as ++ w :: bs).modify as.length Worker.posted = as ++ w.posted :: bs := by
        rw [List.modify_eq_set_getElem?, hw]
        exact set_middle as w w.posted bs
      rw [goOn, hmodify, sum_middle, sum_middle]
      have := hposted w
      omega

/-- A post pays for the worker it wakes, a pull for the post it makes, and the last worker to
leave for the waiter it wakes. -/
theorem potential_lt {s s' : Pool} {a : Act} (hj : Jobs s) (hm : Move s a s') (ha : a.internal = true) :
    s'.potential < s.potential := by
  unfold Pool.potential
  cases hm with
  | push => cases ha
  | @post who wake workers hposter hsignal =>
    have hgo := goOn_weight workers who
    have hsum : (workers.map Worker.weight).sum ≤ (s.workers.map Worker.weight).sum + 1 := by
      rcases signal_cases hsignal with ⟨-, rfl⟩ | ⟨as, w, bs, hat, -, rfl⟩
      · omega
      · rw [hat, sum_middle, sum_middle]
        simp only [Worker.weight]
        omega
    rw [hposter]
    simp only [Option.isSome_some, Option.isSome_none, if_true, Bool.false_eq_true, if_false]
    omega
  | take hat hw hv =>
    rw [hat, hv]
    simp only [sum_middle, if_true, Bool.false_eq_true, if_false]
    rcases hw with rfl | rfl <;> simp only [Worker.weight] <;> omega
  | sleep hat hw hv =>
    rw [hat]
    simp only [sum_middle]
    rcases hw with rfl | rfl <;> simp only [Worker.weight] <;> omega
  | count hat _ =>
    rw [hat]
    simp only [sum_middle, Worker.weight]
    omega
  | pullMore hat hfree hpull =>
    rcases hj.pull_eq hpull with ⟨hc, -⟩ | ⟨-, hpos, -, hlen, -⟩
    · cases hc
    · rw [hat, hfree]
      simp only [sum_middle, Worker.weight, Option.isSome_some, Option.isSome_none, if_true,
        Bool.false_eq_true, if_false]
      omega
  | pullLast hat hfree hpull =>
    have hle : ∀ q : JobQueue, q = s.queue ∨ q.len = s.queue.len - 1 → q.len ≤ s.queue.len := by
      intro q hq
      rcases hq with rfl | hq
      · exact Nat.le_refl _
      · omega
    have hlen := hle _ ((hj.pull_eq hpull).imp (fun hc => hc.2.2.2) fun hc => hc.2.2.2.1)
    rw [hat]
    simp only [sum_middle, Worker.weight]
    omega
  | finish hat =>
    rw [hat]
    simp only [sum_middle, Worker.weight]
    omega
  | @leaveLast as bs wake waiters hat _ _ hsignal =>
    have hsum : (waiters.map Waiter.weight).sum ≤ (s.waiters.map Waiter.weight).sum + 3 := by
      rcases signal_cases hsignal with ⟨-, rfl⟩ | ⟨as, w, bs, hat, -, rfl⟩
      · omega
      · rw [hat, sum_middle, sum_middle]
        cases w <;> simp only [Waiter.wake, Waiter.weight] <;> omega
    rw [hat]
    simp only [sum_middle, Worker.weight]
    omega
  | leave hat =>
    rw [hat]
    simp only [sum_middle, Worker.weight]
    omega
  | spurious => cases ha
  | call => cases ha
  | lock hat hw _ =>
    rw [hat]
    simp only [sum_middle]
    rcases hw with rfl | rfl <;> simp only [Waiter.weight] <;> omega
  | readLenWait hat _ =>
    rw [hat]
    simp only [sum_middle, Waiter.weight]
    omega
  | readLen hat _ =>
    rw [hat]
    simp only [sum_middle, Waiter.weight]
    omega
  | readWorkingWait hat _ =>
    rw [hat]
    simp only [sum_middle, Waiter.weight]
    omega
  | readWorking hat _ =>
    rw [hat]
    simp only [sum_middle, Waiter.weight]
    omega
  | spuriousWait => cases ha

/-! ## At rest

What is left when no internal step can be taken: nobody posts or holds a mutex, waiters
sleep or have returned, and every worker sleeps, since with one awake there would be a
step. -/

/-- No thread in the pool's functions can go on. -/
def AtRest (s : Pool) : Prop := ∀ a, a.internal = true → step s a = none

/-- A signal can always be sent. -/
theorem signal_exists {α : Type} (blocked : α → Bool) (wake : α → α) (l : List α) :
    ∃ i l', signal blocked wake l i = some l' := by
  cases hany : l.any blocked with
  | false => exact ⟨none, l, by rw [signal, hany, if_neg Bool.false_ne_true]⟩
  | true =>
    obtain ⟨x, hx, hblocked⟩ := List.any_eq_true.1 hany
    obtain ⟨i, hi⟩ := List.mem_iff_getElem?.1 hx
    exact ⟨some i, l.set i (wake x), by rw [signal, hi, Option.bind_some, if_pos hblocked]⟩

theorem AtRest.poster {s : Pool} (h : AtRest s) : s.poster = none := by
  by_contra hc
  obtain ⟨who, hwho⟩ := Option.ne_none_iff_exists'.1 hc
  obtain ⟨wake, workers, hsignal⟩ := signal_exists Worker.isBlocked (fun _ => .woken) s.workers
  have hrest := h (.post wake) rfl
  rw [step, hwho, Option.bind_some, hsignal] at hrest
  cases hrest

theorem AtRest.locked {s : Pool} (h : AtRest s) : s.locked = false := by
  by_contra hc
  rw [Bool.not_eq_false] at hc
  obtain ⟨w, hw, hlocks⟩ := List.any_eq_true.1 hc
  obtain ⟨k, hk⟩ := List.mem_iff_getElem?.1 hw
  cases w with
  | reading since =>
    have hrest := h (.readLen k) rfl
    simp only [step, hk, Option.bind_some, waiterStep] at hrest
    split at hrest <;> cases hrest
  | sawEmpty since seen =>
    have hrest := h (.readWorking k) rfl
    simp only [step, hk, Option.bind_some, waiterStep] at hrest
    split at hrest <;> cases hrest
  | _ => cases hlocks

theorem AtRest.waiter {s : Pool} (h : AtRest s) {w : Waiter} (hw : w ∈ s.waiters) :
    w.isBlocked = true ∨ ∃ since seen, w = .returned since seen := by
  obtain ⟨k, hk⟩ := List.mem_iff_getElem?.1 hw
  have hfree := h.locked
  cases w with
  | blocked since => exact .inl rfl
  | returned since seen => exact .inr ⟨since, seen, rfl⟩
  | calling since =>
    have hrest := h (.lock k) rfl
    simp only [step, hk, Option.bind_some, waiterStep, hfree, if_true] at hrest
    cases hrest
  | woken since =>
    have hrest := h (.lock k) rfl
    simp only [step, hk, Option.bind_some, waiterStep, hfree, if_true] at hrest
    cases hrest
  | reading since =>
    have : s.locked = true := List.any_eq_true.2 ⟨_, hw, rfl⟩
    rw [hfree] at this
    cases this
  | sawEmpty since seen =>
    have : s.locked = true := List.any_eq_true.2 ⟨_, hw, rfl⟩
    rw [hfree] at this
    cases this

/-- No worker is on its way anywhere. -/
theorem AtRest.worker {s : Pool} (h : AtRest s) (hi : Inv s) {w : Worker} (hw : w ∈ s.workers) :
    w = .blocked := by
  obtain ⟨i, hat⟩ := List.mem_iff_getElem?.1 hw
  have hfree := h.locked
  have hposter := h.poster
  cases w with
  | blocked => rfl
  | idle =>
    have hrest := h (.enter i) rfl
    simp only [step, hat, Option.bind_some, workerStep, true_or, if_true] at hrest
    split at hrest <;> cases hrest
  | woken =>
    have hrest := h (.enter i) rfl
    simp only [step, hat, Option.bind_some, workerStep, or_true, if_true] at hrest
    split at hrest <;> cases hrest
  | taken =>
    have hrest := h (.count i) rfl
    simp [step, hat, workerStep, hfree] at hrest
  | counted =>
    have hrest := h (.pull i) rfl
    rcases hi.jobs.queue.pull with ⟨-, hpull⟩ | ⟨q, -, -, -, hpull⟩
    · simp [step, hat, workerStep, hposter, hpull] at hrest
    · simp only [step, hat, Option.bind_some, workerStep, hposter, hpull, true_and, if_true] at hrest
      cases hlen : decide (1 < s.queue.len) <;> rw [hlen] at hrest <;> cases hrest
  | posting job =>
    have hmap : (s.workers.map Worker.isPosting)[i]? = some true := by
      rw [List.getElem?_map, hat]
      rfl
    have := (hi.locks.posting i).2 hmap
    rw [hposter] at this
    cases this
  | running job =>
    have hrest := h (.finish i) rfl
    simp [step, hat, workerStep] at hrest
  | leaving =>
    obtain ⟨wake, waiters, hsignal⟩ := signal_exists Waiter.isBlocked Waiter.wake s.waiters
    by_cases hworking : s.working - 1 = 0
    · have hrest := h (.leave i wake) rfl
      simp [step, hat, workerStep, hfree, hworking, hsignal] at hrest
    · have hrest := h (.leave i none) rfl
      simp [step, hat, workerStep, hfree, hworking] at hrest

/-- A pool whose workers sleep, and whose waiters sleep or have returned, is at rest. -/
theorem atRest_of_sleeping {s : Pool} (hposter : s.poster = none) (hworkers : ∀ w ∈ s.workers, w = .blocked)
    (hwaiters : ∀ w ∈ s.waiters, w.isBlocked = true ∨ ∃ since seen, w = .returned since seen) :
    AtRest s := by
  have hworker : ∀ i a, a.internal = true → (s.workers[i]?.bind fun w => workerStep s i w a) = none := by
    intro i a ha
    cases hw : s.workers[i]? with
    | none => rfl
    | some w =>
      rw [hworkers w (List.mem_of_getElem? hw)]
      cases a with
      | spurious => cases ha
      | _ => rfl
  have hwaiter : ∀ k a, a.internal = true → (s.waiters[k]?.bind fun w => waiterStep s k w a) = none := by
    intro k a ha
    cases hw : s.waiters[k]? with
    | none => rfl
    | some w =>
      rcases hwaiters w (List.mem_of_getElem? hw) with hblocked | ⟨since, seen, rfl⟩
      · cases w with
        | blocked since =>
          cases a with
          | spuriousWait => cases ha
          | _ => rfl
        | _ => cases hblocked
      · cases a <;> rfl
  intro a ha
  cases a with
  | push => cases ha
  | call => cases ha
  | post wake => rw [step, hposter, Option.bind_none]
  | lock k => exact hwaiter k _ ha
  | readLen k => exact hwaiter k _ ha
  | readWorking k => exact hwaiter k _ ha
  | spuriousWait k => exact hwaiter k _ ha
  | enter i => exact hworker i _ ha
  | count i => exact hworker i _ ha
  | pull i => exact hworker i _ ha
  | finish i => exact hworker i _ ha
  | leave i wake => exact hworker i _ ha
  | spurious i => exact hworker i _ ha

theorem Move.length {s s' : Pool} {a : Act} (hm : Move s a s') : s'.workers.length = s.workers.length := by
  have hmiddle : ∀ {as w w' bs}, s.workers = as ++ w :: bs →
      (as ++ w' :: bs : List Worker).length = s.workers.length := by
    intro as w w' bs hat
    rw [hat, List.length_append, List.length_append, List.length_cons, List.length_cons]
  cases hm with
  | @post who _ workers _ hsignal =>
    have h1 := congrArg List.length (signal_map (f := Worker.works) (fun w hw => by
      rw [eq_blocked hw]
      rfl) hsignal)
    have h2 := congrArg List.length (goOn_map posted_works workers who)
    rw [List.length_map, List.length_map] at h1 h2
    exact h2.trans h1
  | take hat => exact hmiddle hat
  | sleep hat => exact hmiddle hat
  | count hat => exact hmiddle hat
  | pullMore hat => exact hmiddle hat
  | pullLast hat => exact hmiddle hat
  | finish hat => exact hmiddle hat
  | leaveLast hat => exact hmiddle hat
  | leave hat => exact hmiddle hat
  | spurious hat => exact hmiddle hat
  | _ => rfl

theorem reachable_length {threads : Nat} {s : Pool} (h : (pool threads).Reachable s) :
    s.workers.length = threads := by
  refine h.invariant (I := fun s => s.workers.length = threads) (fun s hs => ?_) fun s a s' hi hs => ?_
  · rw [show s = init threads from hs]
    exact List.length_replicate
  · exact (step_cases hs).length.trans hi

/-- At rest every job that was added has been run, each once. -/
theorem rest_finished {threads : Nat} {s : Pool} (h : (pool threads).Reachable s) (hthreads : 0 < threads)
    (hrest : AtRest s) :
    s.queue.len = 0 ∧ s.working = 0 ∧ s.finished.Perm (List.range s.pushed) := by
  have hi := reachable_inv h
  have ha := reachable_awake h
  have hworker := fun w hw => hrest.worker hi (w := w) hw
  have hlen : s.queue.len = 0 := by
    by_contra hc
    rcases ha.token (Nat.pos_of_ne_zero hc) with hv | hposter | ⟨w, hw, hfetches⟩
    · rcases ha.awake hv with hnil | ⟨w, hw, hblocked⟩
      · have := reachable_length h
        rw [hnil, List.length_nil] at this
        omega
      · rw [hworker w hw] at hblocked
        cases hblocked
    · exact hposter hrest.poster
    · rw [hworker w hw] at hfetches
      cases hfetches
  have hworking : s.working = 0 := by
    rw [hi.locks.working, List.countP_eq_zero]
    intro w hw
    rw [hworker w hw]
    exact Bool.false_ne_true
  refine ⟨hlen, hworking, ?_⟩
  have hfinished := finished_of_idle hi.jobs hi.locks hworking
  rwa [Pool.started, hlen, Nat.sub_zero] at hfinished

/-! ## Runs of internal steps -/

theorem Move.pushed {s s' : Pool} {a : Act} (hm : Move s a s') (ha : a.internal = true) :
    s'.pushed = s.pushed := by
  cases hm with
  | push => cases ha
  | _ => rfl

/-- A run of the threads in the pool's functions alone. -/
def Internal (threads : Nat) (s : Pool) (as : List Act) (s' : Pool) : Prop :=
  (pool threads).Run s as s' ∧ ∀ a ∈ as, a.internal = true

/-- Such a run is no longer than the measure says. -/
theorem Internal.bounded {threads : Nat} {s s' : Pool} {as : List Act} (h : (pool threads).Reachable s)
    (hr : Internal threads s as s') :
    as.length + s'.potential ≤ s.potential ∧ s'.pushed = s.pushed := by
  obtain ⟨hr, has⟩ := hr
  induction hr with
  | nil => simp
  | cons hs _ ih =>
    have hm := step_cases hs
    have ha := has _ List.mem_cons_self
    have hlt := potential_lt (reachable_inv h).jobs hm ha
    obtain ⟨hle, hpushed⟩ := ih (h.step hs) fun a ha => has a (List.mem_cons_of_mem _ ha)
    rw [List.length_cons]
    exact ⟨by omega, hpushed.trans (hm.pushed ha)⟩

/-- There is one to rest: as long as it is not reached a step can be taken. -/
theorem exists_rest {threads : Nat} {s : Pool} (h : (pool threads).Reachable s) :
    ∃ as s', Internal threads s as s' ∧ AtRest s' := by
  induction hn : s.potential using Nat.strongRecOn generalizing s with
  | ind n ih =>
    by_cases hrest : AtRest s
    · exact ⟨[], s, ⟨.nil, fun a ha => absurd ha List.not_mem_nil⟩, hrest⟩
    · unfold AtRest at hrest
      push Not at hrest
      obtain ⟨a, ha, hstep⟩ := hrest
      obtain ⟨s1, hs⟩ := Option.ne_none_iff_exists'.1 hstep
      have hlt := potential_lt (reachable_inv h).jobs (step_cases hs) ha
      obtain ⟨as, s', ⟨hr, has⟩, hend⟩ := ih s1.potential (hn ▸ hlt) (h.step hs) rfl
      refine ⟨a :: as, s', ⟨.cons hs hr, fun b hb => ?_⟩, hend⟩
      rcases List.mem_cons.1 hb with rfl | hb
      · exact ha
      · exact has b hb

/-- Whatever the scheduler does, the threads in the pool's functions come to rest, and when they
do every job that was added has been run. -/
theorem comes_to_rest {threads : Nat} (hthreads : 0 < threads) {s : Pool}
    (h : (pool threads).Reachable s) :
    (∀ as s', Internal threads s as s' → as.length ≤ s.potential ∧
      (AtRest s' → s'.queue.len = 0 ∧ s'.finished.Perm (List.range s.pushed))) ∧
    ∃ as s', Internal threads s as s' ∧ AtRest s' := by
  refine ⟨fun as s' hr => ?_, exists_rest h⟩
  obtain ⟨hle, hpushed⟩ := hr.bounded h
  refine ⟨by omega, fun hrest => ?_⟩
  obtain ⟨hlen, -, hfinished⟩ := rest_finished (h.run hr.1) hthreads hrest
  exact ⟨hlen, hpushed ▸ hfinished⟩

/-- Two jobs for two workers that slept: one has been woken for the first job, the semaphore
is still to be posted for the second. -/
theorem comes_to_rest_two : ∃ s, steps (init 2) [.enter 0, .enter 1, .push, .post (some 0), .push] =
      some s ∧ s.workers = [.woken, .blocked] ∧ s.queue.len = 2 ∧ s.poster = some none ∧
    (∀ as s', Internal 2 s as s' → as.length ≤ 47 ∧
      (AtRest s' → s'.queue.len = 0 ∧ s'.finished.Perm [0, 1])) ∧
    ∃ as s', Internal 2 s as s' ∧ AtRest s' := by
  obtain ⟨s, hs⟩ : ∃ s, steps (init 2) [.enter 0, .enter 1, .push, .post (some 0), .push] = some s :=
    ⟨_, rfl⟩
  have hrest := comes_to_rest (Nat.succ_pos 1) (reachable_steps (.init rfl) hs)
  cases hs
  exact ⟨_, rfl, rfl, rfl, rfl, hrest⟩

/-! ## One waiter at a time

`threads_all_idle` is signalled once, by the last worker to leave, and wakes one waiter. A
waiter that is alone gets that signal, and cannot come too late for it: it goes to sleep
only on a queue or a count that is not zero, with `thcount_lock` in its hands. -/

def Waiter.isReturned : Waiter → Bool
  | .returned _ _ => true
  | _ => false

/-- `thpool_wait` is called only while no other thread is in it. -/
def alone (s : Pool) : Act → Prop
  | .call => ∀ w ∈ s.waiters, w.isReturned = true
  | _ => True

/-- The waiter that waits has something to wait for. -/
structure Missed (s : Pool) : Prop where
  one : s.waiters.countP (fun w => !w.isReturned) ≤ 1
  busy : ∀ w ∈ s.waiters, w.isBlocked = true → 0 < s.queue.len ∨ 0 < s.working

/-- One waiter goes on; if it waits again there is something to wait for. -/
theorem Missed.waiter {s : Pool} (h : Missed s) {as bs : List Waiter} {w w' : Waiter}
    (hat : s.waiters = as ++ w :: bs) (hw : w.isReturned = false)
    (hbusy : w'.isBlocked = true → 0 < s.queue.len ∨ 0 < s.working) :
    Missed { s with waiters := as ++ w' :: bs } := by
  refine ⟨?_, fun x hx hblocked => ?_⟩
  · have hone := h.one
    rw [hat, countP_middle, hw] at hone
    simp only [countP_middle]
    simp only [Bool.not_false, if_true] at hone
    split <;> omega
  · by_cases hxw : x = w'
    · exact hbusy (hxw ▸ hblocked)
    · exact h.busy x (hat ▸ mem_middle hx hxw) hblocked

/-- The waiters stay as they are, and those that wait still have something to wait for. -/
theorem Missed.congr {s s' : Pool} (h : Missed s) (hwaiters : s'.waiters = s.waiters)
    (hbusy : 0 < s.queue.len ∨ 0 < s.working → 0 < s'.queue.len ∨ 0 < s'.working) : Missed s' :=
  ⟨hwaiters ▸ h.one, fun w hw hblocked => hbusy (h.busy w (hwaiters ▸ hw) hblocked)⟩

/-- The last worker to leave wakes the one waiter that may be blocked. Every other step leaves
it something to wait for. -/
theorem Missed.step {s s' : Pool} {a : Act} (hi : Inv s) (h : Missed s) (hm : Move s a s')
    (halone : alone s a) : Missed s' := by
  -- a worker that is counted is something to wait for
  have hcounted : ∀ {as w bs}, s.workers = as ++ w :: bs → w.works = true → 0 < s.working := by
    intro as w bs hat hw
    rw [hi.locks.working, hat, countP_middle, hw]
    simp
  cases hm with
  | push _ hpush =>
    have hlen := (hi.jobs.push_eq hpush).1
    exact h.congr rfl fun _ => .inl (by simp only; omega)
  | count hat _ => exact h.congr rfl fun _ => .inr (Nat.succ_pos _)
  | pullMore hat _ _ => exact h.congr rfl fun _ => .inr (hcounted hat rfl)
  | pullLast hat _ _ => exact h.congr rfl fun _ => .inr (hcounted hat rfl)
  | @leaveLast as bs wake waiters hat _ hworking hsignal =>
    have hone : waiters.countP (fun w => !w.isReturned) ≤ 1 := by
      rw [countP_of_map (signal_map (fun w _ => by cases w <;> rfl) hsignal)]
      exact h.one
    refine ⟨hone, fun w hw hblocked => ?_⟩
    -- the one waiter has been woken
    rcases signal_cases hsignal with ⟨hnone, rfl⟩ | ⟨cs, x, ds, hat', hx, rfl⟩
    · rw [hnone w hw] at hblocked
      cases hblocked
    · have hwake : x.wake.isBlocked = false ∧ x.wake.isReturned = false := by
        cases x <;> first | exact ⟨rfl, rfl⟩ | cases hx
      have hcount := hone
      simp only [countP_middle, hwake.2, Bool.not_false, if_true] at hcount
      have hrest : ∀ y ∈ cs ++ ds, y.isReturned = true := by
        intro y hy
        have hzero : (cs ++ ds).countP (fun w => !w.isReturned) = 0 := by
          rw [List.countP_append]
          omega
        simpa using List.countP_eq_zero.1 hzero y hy
      have hother : w ≠ x.wake := by
        rintro rfl
        rw [hwake.1] at hblocked
        cases hblocked
      have hw' : w ∈ cs ++ ds := by
        rcases List.mem_append.1 hw with hw | hw
        · exact List.mem_append_left _ hw
        · exact List.mem_append_right _ ((List.mem_cons.1 hw).resolve_left hother)
      have hdone := hrest w hw'
      cases w with
      | blocked since => cases hdone
      | _ => cases hblocked
  | leave hat _ hworking => exact h.congr rfl fun _ => .inr (Nat.pos_of_ne_zero hworking)
  | call =>
    have hzero : s.waiters.countP (fun w => !w.isReturned) = 0 := by
      rw [List.countP_eq_zero]
      intro w hw
      rw [halone w hw]
      exact Bool.false_ne_true
    refine ⟨?_, fun w hw hblocked => ?_⟩
    · simp only [List.countP_append]
      rw [hzero]
      exact Nat.le_refl 1
    · rcases List.mem_append.1 hw with hw | hw
      · exact h.busy w hw hblocked
      · rw [List.mem_singleton.1 hw] at hblocked
        cases hblocked
  | lock hat hw _ =>
    refine h.waiter hat ?_ fun hc => by cases hc
    rcases hw with rfl | rfl <;> rfl
  | readLenWait hat hlen => exact h.waiter hat rfl fun _ => .inl (Nat.pos_of_ne_zero hlen)
  | readLen hat _ => exact h.waiter hat rfl fun hc => by cases hc
  | readWorkingWait hat hworking => exact h.waiter hat rfl fun _ => .inr (Nat.pos_of_ne_zero hworking)
  | readWorking hat _ => exact h.waiter hat rfl fun hc => by cases hc
  | spuriousWait hat => exact h.waiter hat rfl fun hc => by cases hc
  | _ => exact h.congr rfl fun hc => hc

/-- Where `thpool_wait` is called by one thread at a time, it has returned when the pool is at
rest. -/
theorem rest_returned {threads : Nat} (hthreads : 0 < threads) {s : Pool}
    (h : ((pool threads).restrict alone).Reachable s) (hrest : AtRest s) :
    ∀ w ∈ s.waiters, ∃ since seen, w = .returned since seen ∧ since ≤ seen := by
  have hr := h.of_restrict
  have hmissed : Inv s ∧ Missed s := by
    refine h.invariant (I := fun s => Inv s ∧ Missed s) (fun s hs => ?_) fun s a s' hi hs => ?_
    · rw [show s = init threads from hs]
      exact ⟨inv_init threads, Nat.zero_le 1, fun w hw => absurd hw List.not_mem_nil⟩
    · exact ⟨inv_step hi.1 hs.1, hi.2.step hi.1 (step_cases hs.1) hs.2⟩
  obtain ⟨hlen, hworking, -⟩ := rest_finished hr hthreads hrest
  intro w hw
  rcases hrest.waiter hw with hblocked | ⟨since, seen, rfl⟩
  · have := hmissed.2.busy w hw hblocked
    omega
  · exact ⟨since, seen, rfl, ((reachable_inv hr).sound _ hw).1⟩

/-- A list of steps in which nobody else calls. -/
theorem alone_steps {threads : Nat} {s s' : Pool} {as : List Act}
    (h : ((pool threads).restrict alone).Reachable s) (has : .call ∉ as) (hs : steps s as = some s') :
    ((pool threads).restrict alone).Reachable s' := by
  induction as generalizing s with
  | nil =>
    cases hs
    exact h
  | cons a as ih =>
    obtain ⟨s1, hs1, hs⟩ := Option.bind_eq_some_iff.1 hs
    have halone : alone s a := by
      cases a with
      | call => exact absurd List.mem_cons_self has
      | _ => exact True.intro
    exact ih (h.step ⟨hs1, halone⟩) (fun hc => has (List.mem_cons_of_mem _ hc)) hs

/-- A caller that finds a job in the queue sleeps; the worker runs the job and wakes it. -/
theorem rest_returned_woken : ∃ s1 s, steps (init 1) [.push, .post none, .call, .lock 0, .readLen 0] =
      some s1 ∧ s1.waiters = [.blocked 1] ∧ s1.queue.len = 1 ∧
    steps s1 [.enter 0, .count 0, .pull 0, .finish 0, .leave 0 (some 0), .lock 0, .readLen 0,
      .readWorking 0, .enter 0] = some s ∧ s.waiters.length = 1 ∧
    ∀ w ∈ s.waiters, ∃ since seen, w = .returned since seen ∧ since ≤ seen := by
  have h0 : ((pool 1).restrict alone).Reachable (init 1) := .init rfl
  have h1 := @alone_steps 1 _ _ [.push, .post none] h0 (by decide) rfl
  have h2 := h1.step (a := Act.call) ⟨rfl, fun w hw => absurd hw List.not_mem_nil⟩
  have h3 := @alone_steps 1 _ _ [.lock 0, .readLen 0] h2 (by decide) rfl
  have h4 := @alone_steps 1 _ _ [.enter 0, .count 0, .pull 0, .finish 0, .leave 0 (some 0), .lock 0,
    .readLen 0, .readWorking 0, .enter 0] h3 (by decide) rfl
  refine ⟨_, _, rfl, rfl, rfl, rfl, rfl, rest_returned Nat.one_pos h4 (atRest_of_sleeping rfl ?_ ?_)⟩
  · exact fun w hw => List.mem_singleton.1 hw
  · exact fun w hw => .inr ⟨1, 1, List.mem_singleton.1 hw⟩

/-- Two threads wait for one job. The worker wakes the first, which finds the pool idle and
returns; the second goes on waiting, with nothing left to wake it. -/
theorem wait_missed : ∃ s, steps (init 1) [.push, .post none, .call, .call, .lock 0, .readLen 0, .lock 1,
    .readLen 1, .enter 0, .count 0, .pull 0, .finish 0, .leave 0 (some 0), .lock 0, .readLen 0,
    .readWorking 0, .enter 0] = some s ∧
      s.waiters = [.returned 1 1, .blocked 1] ∧ s.finished = [0] ∧ AtRest s := by
  refine ⟨_, rfl, rfl, rfl, atRest_of_sleeping rfl ?_ ?_⟩
  · exact fun w hw => List.mem_singleton.1 hw
  · intro w hw
    rcases List.mem_cons.1 hw with rfl | hw
    · exact .inr ⟨1, 1, rfl⟩
    · exact .inl (by rw [List.mem_singleton.1 hw]; rfl)

end FfiRpc.Thpool
