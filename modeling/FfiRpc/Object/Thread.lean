import FfiRpc.Store.Types

/-!
# Nested calls on one thread

The thread-local state of `rpc_object.c` over a tree of calls: `call` loads the
person's `lobjects` and hands over to `rpc_cobject_call`, which pushes the object,
runs the function and pops; the function may make further calls through local
clients (rpc_object.c:73-104, 120-122, 185-187, rpc_server.c:302-331).

Events note what a function's body can observe at any moment, and the stack each
`rpc_cobject_call` finds and leaves.

* The stack is a queue: `current_iff`, it serves exactly the trees whose calls are
  all on one object.
* `RO_lobjects` is never put back: `isolated_iff`, each body has its own person's
  exactly in the trees all made on behalf of one person.
-/
namespace FfiRpc.Nested

/-- The thread-locals `RO_lobjects` and `RO_object_stack`. -/
structure Thread where
  lobjects : Addr
  objectStack : List Addr

/-- `lobjects` is what `rpc_struct_get(person, "lobjects", ..)` finds. -/
structure Person where
  lobjects : Addr

/-- What becomes of a call: a field of the request is missing, `rpc_cobject_call`
returns an error, or a function of the object runs. -/
inductive Outcome where
  | incomplete
  | refused
  | runs (cobj : Addr)

/-- The calls a function's body makes, in order. -/
inductive Body where
  | done
  | call (person : Person) (outcome : Outcome) (inner : Body) (rest : Body)

/-- mirrors src/rpc_object.c:73-76 (`rpc_cobject_push`) -/
def rpcCobjectPush (t : Thread) (cobject : Addr) : Thread :=
  { t with objectStack := t.objectStack ++ [cobject] }

/-- mirrors src/rpc_object.c:78-82 (`rpc_cobject_current`) -/
def rpcCobjectCurrent (t : Thread) : Option Addr := t.objectStack.head?

/-- mirrors src/rpc_object.c:84-87 (`rpc_cobject_pop`) -/
def rpcCobjectPop (t : Thread) : Thread := { t with objectStack := t.objectStack.tail }

/-- The private object `rpc_lobject_get` reads or creates: the struct it is in and
the object whose ID is its key.
mirrors src/rpc_object.c:89-104 (`rpc_lobject_get`) -/
def rpcLobjectGet (t : Thread) : Option (Addr × Addr) :=
  if t.lobjects = 0 then none else (rpcCobjectCurrent t).map (t.lobjects, ·)

/-- mirrors src/rpc_object.c:120-122 (`rpc_lobjects_load`) -/
def rpcLobjectsLoad (t : Thread) (lobjects : Addr) : Thread := { t with lobjects := lobjects }

inductive Event where
  /-- a moment in the body of the innermost call still running: its object, its
  person and the thread-locals -/
  | moment (cobj : Addr) (person : Person) (t : Thread)
  /-- an `rpc_cobject_call` is over -/
  | returned (found left : List Addr)

/-- mirrors src/rpc_object.c:144-208 (`rpc_cobject_call`) -/
def rpcCobjectCall (outcome : Outcome) (body : Addr → Thread → List Event × Thread) (t : Thread) :
    List Event × Thread :=
  match outcome with
  | .runs cobj =>
    let (events, t1) := body cobj (rpcCobjectPush t cobj)
    let t2 := rpcCobjectPop t1
    (events ++ [.returned t.objectStack t2.objectStack], t2)
  | _ => ([.returned t.objectStack t.objectStack], t)

/-- mirrors src/rpc_server.c:302-331 (`call`) -/
def call (person : Person) (outcome : Outcome) (body : Addr → Thread → List Event × Thread)
    (t : Thread) : List Event × Thread :=
  match outcome with
  | .incomplete => ([], t)
  | _ => rpcCobjectCall outcome body (rpcLobjectsLoad t person.lobjects)

/-- The events of a function's body, and the thread-locals after it. -/
def run (person : Person) : Body → Addr → Thread → List Event × Thread
  | .done, cobj, t => ([.moment cobj person t], t)
  | .call person' outcome inner rest, cobj, t =>
    let (nested, t1) := call person' outcome (run person' inner) t
    let (later, t2) := run person rest cobj t1
    (.moment cobj person t :: (nested ++ later), t2)

/-- Everything observed is as it should be: `rpc_cobject_current` and the stack. -/
def Current : Event → Prop
  | .moment cobj _ t => rpcCobjectCurrent t = some cobj
  | .returned found left => left = found

/-- The lobjects loaded are the person's own, and with them the private object. -/
def Isolated : Event → Prop
  | .moment _ person t =>
    t.lobjects = person.lobjects ∧ ∀ slot ∈ rpcLobjectGet t, slot.1 = person.lobjects
  | .returned _ _ => True

namespace Body

/-- The objects of the calls that run. -/
def objects : Body → List Addr
  | .done => []
  | .call _ (.runs cobj) inner rest => cobj :: (inner.objects ++ rest.objects)
  | .call _ _ _ rest => rest.objects

/-- The lobjects that the calls load. -/
def loads : Body → List Addr
  | .done => []
  | .call _ .incomplete _ rest => rest.loads
  | .call person .refused _ rest => person.lobjects :: rest.loads
  | .call person (.runs _) inner rest => person.lobjects :: (inner.loads ++ rest.loads)

end Body

variable {person : Person} {cobj : Addr} {b : Body} {t : Thread}

theorem run_first (person : Person) (b : Body) (cobj : Addr) (t : Thread) :
    Event.moment cobj person t ∈ (run person b cobj t).1 := by
  cases b <;> exact List.mem_cons_self

/-- The thread-locals when the function of a nested call starts. -/
def enter (t : Thread) (person : Person) (cobj : Addr) : Thread :=
  rpcCobjectPush (rpcLobjectsLoad t person.lobjects) cobj

/-- The thread-locals when a nested call is over. -/
def leave (t : Thread) (person : Person) (cobj : Addr) (inner : Body) : Thread :=
  rpcCobjectPop (run person inner cobj (enter t person cobj)).2

theorem mem_run_call {person' : Person} {o : Addr} {inner rest : Body} {e : Event} :
    e ∈ (run person (.call person' (.runs o) inner rest) cobj t).1 ↔
      e = .moment cobj person t ∨ e ∈ (run person' inner o (enter t person' o)).1 ∨
      e = .returned t.objectStack (leave t person' o inner).objectStack ∨
      e ∈ (run person rest cobj (leave t person' o inner)).1 := by
  show e ∈ Event.moment cobj person t :: (((run person' inner o (enter t person' o)).1 ++
    [.returned t.objectStack (leave t person' o inner).objectStack]) ++
    (run person rest cobj (leave t person' o inner)).1) ↔ _
  simp only [List.mem_cons, List.mem_append, List.not_mem_nil, or_false, or_assoc]

theorem mem_run_refused {person' : Person} {inner rest : Body} {e : Event} :
    e ∈ (run person (.call person' .refused inner rest) cobj t).1 ↔
      e = .moment cobj person t ∨ e = .returned t.objectStack t.objectStack ∨
      e ∈ (run person rest cobj (rpcLobjectsLoad t person'.lobjects)).1 := by
  show e ∈ Event.moment cobj person t :: ([.returned t.objectStack t.objectStack] ++
    (run person rest cobj (rpcLobjectsLoad t person'.lobjects)).1) ↔ _
  simp only [List.mem_cons, List.mem_append, List.not_mem_nil, or_false]

theorem mem_run_incomplete {person' : Person} {inner rest : Body} {e : Event} :
    e ∈ (run person (.call person' .incomplete inner rest) cobj t).1 ↔
      e = .moment cobj person t ∨ e ∈ (run person rest cobj t).1 :=
  List.mem_cons

/-! ## The object stack -/

/-- A tree on one object, on a stack of that object. -/
theorem run_same (b : Body) (person : Person) (t : Thread) {n : Nat}
    (ht : t.objectStack = List.replicate (n + 1) cobj) (hb : ∀ o ∈ b.objects, o = cobj) :
    (∀ e ∈ (run person b cobj t).1, Current e) ∧
      (run person b cobj t).2.objectStack = t.objectStack := by
  have hmoment : Current (.moment cobj person t) := by
    rw [Current, rpcCobjectCurrent, ht]
    rfl
  induction b generalizing person t n with
  | done => exact ⟨fun e he => List.mem_singleton.1 he ▸ hmoment, rfl⟩
  | call person' outcome inner rest ihInner ihRest =>
    cases outcome with
    | incomplete =>
      obtain ⟨hrest, hleft⟩ := ihRest person t ht hb hmoment
      refine ⟨fun e he => ?_, hleft⟩
      rcases mem_run_incomplete.1 he with rfl | he
      · exact hmoment
      · exact hrest e he
    | refused =>
      obtain ⟨hrest, hleft⟩ := ihRest person (rpcLobjectsLoad t person'.lobjects) ht hb hmoment
      refine ⟨fun e he => ?_, hleft⟩
      rcases mem_run_refused.1 he with rfl | rfl | he
      · exact hmoment
      · rfl
      · exact hrest e he
    | runs o =>
      obtain rfl : o = cobj := hb o List.mem_cons_self
      have hpush : (enter t person' o).objectStack = List.replicate (n + 1 + 1) o := by
        rw [List.replicate_succ', ← ht]
        rfl
      have hstart : Current (.moment o person' (enter t person' o)) := by
        rw [Current, rpcCobjectCurrent, hpush]
        rfl
      obtain ⟨hinner, hin⟩ := ihInner person' (enter t person' o) hpush
        (fun x hx => hb x (List.mem_cons_of_mem _ (List.mem_append_left _ hx))) hstart
      have hpop : (leave t person' o inner).objectStack = t.objectStack := by
        rw [leave, rpcCobjectPop, hin, hpush, ht]
        rfl
      have hafter : Current (.moment o person (leave t person' o inner)) := by
        rw [Current, rpcCobjectCurrent, hpop]
        exact hmoment
      obtain ⟨hrest, hleft⟩ := ihRest person (leave t person' o inner) (hpop.trans ht)
        (fun x hx => hb x (List.mem_cons_of_mem _ (List.mem_append_right _ hx))) hafter
      refine ⟨fun e he => ?_, hleft.trans hpop⟩
      rcases mem_run_call.1 he with rfl | he | rfl | he
      · exact hmoment
      · exact hinner e he
      · exact hpop
      · exact hrest e he

/-- The objects of a tree in which everything observed is as it should be. -/
theorem objects_same (b : Body) (person : Person) (t : Thread)
    (ht : rpcCobjectCurrent t = some cobj) (h : ∀ e ∈ (run person b cobj t).1, Current e) :
    ∀ o ∈ b.objects, o = cobj := by
  induction b generalizing person t with
  | done => nofun
  | call person' outcome inner rest ihInner ihRest =>
    cases outcome with
    | incomplete => exact ihRest person t ht fun e he => h e (mem_run_incomplete.2 (.inr he))
    | refused =>
      exact ihRest person (rpcLobjectsLoad t person'.lobjects) ht fun e he =>
        h e (mem_run_refused.2 (.inr (.inr he)))
    | runs o =>
      -- inside the nested function the head of the queue is still the outer object
      have hhead : rpcCobjectCurrent (enter t person' o) = some cobj := by
        rw [rpcCobjectCurrent, show (enter t person' o).objectStack = t.objectStack ++ [o] from rfl,
          List.head?_append]
        exact Option.or_eq_some_iff.2 (.inl ht)
      obtain rfl : o = cobj := by
        have hinner := h _ (mem_run_call.2 (.inr (.inl (run_first person' inner o _))))
        exact Option.some.inj (hinner.symm.trans hhead)
      have hpop : t.objectStack = (leave t person' o inner).objectStack :=
        (h _ (mem_run_call.2 (.inr (.inr (.inl rfl))))).symm
      intro x hx
      rcases List.mem_cons.1 hx with rfl | hx
      · rfl
      · rcases List.mem_append.1 hx with hx | hx
        · exact ihInner person' _ hhead (fun e he => h e (mem_run_call.2 (.inr (.inl he)))) x hx
        · refine ihRest person (leave t person' o inner) ?_
            (fun e he => h e (mem_run_call.2 (.inr (.inr (.inr he))))) x hx
          rw [rpcCobjectCurrent, ← hpop]
          exact ht

/-! ## The loaded lobjects -/

theorem isolated_moment : Isolated (.moment cobj person t) ↔ t.lobjects = person.lobjects := by
  refine ⟨fun h => h.1, fun h => ⟨h, fun slot hslot => ?_⟩⟩
  unfold rpcLobjectGet at hslot
  split at hslot
  · cases hslot
  · obtain ⟨o, -, rfl⟩ := Option.map_eq_some_iff.1 hslot
    exact h

/-- A tree on behalf of one person. -/
theorem run_isolated (b : Body) (person : Person) (cobj : Addr) (t : Thread)
    (ht : t.lobjects = person.lobjects) (hb : ∀ l ∈ b.loads, l = person.lobjects) :
    (∀ e ∈ (run person b cobj t).1, Isolated e) ∧
      (run person b cobj t).2.lobjects = person.lobjects := by
  induction b generalizing person cobj t with
  | done => exact ⟨fun e he => List.mem_singleton.1 he ▸ isolated_moment.2 ht, ht⟩
  | call person' outcome inner rest ihInner ihRest =>
    cases outcome with
    | incomplete =>
      obtain ⟨hrest, hleft⟩ := ihRest person cobj t ht hb
      refine ⟨fun e he => ?_, hleft⟩
      rcases mem_run_incomplete.1 he with rfl | he
      · exact isolated_moment.2 ht
      · exact hrest e he
    | refused =>
      have hload : person'.lobjects = person.lobjects := hb _ List.mem_cons_self
      obtain ⟨hrest, hleft⟩ := ihRest person cobj (rpcLobjectsLoad t person'.lobjects) hload
        fun l hl => hb l (List.mem_cons_of_mem _ hl)
      refine ⟨fun e he => ?_, hleft⟩
      rcases mem_run_refused.1 he with rfl | rfl | he
      · exact isolated_moment.2 ht
      · trivial
      · exact hrest e he
    | runs o =>
      have hload : person'.lobjects = person.lobjects := hb _ List.mem_cons_self
      obtain ⟨hinner, hin⟩ := ihInner person' o (enter t person' o) rfl fun l hl =>
        (hb l (List.mem_cons_of_mem _ (List.mem_append_left _ hl))).trans hload.symm
      obtain ⟨hrest, hleft⟩ := ihRest person cobj (leave t person' o inner) (hin.trans hload)
        fun l hl => hb l (List.mem_cons_of_mem _ (List.mem_append_right _ hl))
      refine ⟨fun e he => ?_, hleft⟩
      rcases mem_run_call.1 he with rfl | he | rfl | he
      · exact isolated_moment.2 ht
      · exact hinner e he
      · trivial
      · exact hrest e he

/-- The lobjects loaded by a tree in which each body has its own person's. -/
theorem loads_same (b : Body) (person : Person) (cobj : Addr) (t : Thread)
    (h : ∀ e ∈ (run person b cobj t).1, Isolated e) : ∀ l ∈ b.loads, l = person.lobjects := by
  induction b generalizing person cobj t with
  | done => nofun
  | call person' outcome inner rest ihInner ihRest =>
    cases outcome with
    | incomplete =>
      exact ihRest person cobj t fun e he => h e (mem_run_incomplete.2 (.inr he))
    | refused =>
      have hrest : ∀ e ∈ (run person rest cobj (rpcLobjectsLoad t person'.lobjects)).1,
          Isolated e := fun e he => h e (mem_run_refused.2 (.inr (.inr he)))
      intro l hl
      rcases List.mem_cons.1 hl with rfl | hl
      · exact isolated_moment.1 (hrest _ (run_first person rest cobj _))
      · exact ihRest person cobj _ hrest l hl
    | runs o =>
      have hinner := ihInner person' o (enter t person' o) fun e he =>
        h e (mem_run_call.2 (.inr (.inl he)))
      have hrest : ∀ e ∈ (run person rest cobj (leave t person' o inner)).1, Isolated e :=
        fun e he => h e (mem_run_call.2 (.inr (.inr (.inr he))))
      -- the outer body goes on with what the nested one left
      have hload : person'.lobjects = person.lobjects := by
        have hin := (run_isolated inner person' o (enter t person' o) rfl hinner).2
        have hafter := isolated_moment.1
          (hrest _ (run_first person rest cobj (leave t person' o inner)))
        exact hin.symm.trans hafter
      intro l hl
      rcases List.mem_cons.1 hl with rfl | hl
      · exact hload
      · rcases List.mem_append.1 hl with hl | hl
        · exact (hinner l hl).trans hload
        · exact ihRest person cobj _ hrest l hl

/-! ## Trees -/

/-- A call made while no other is running on the thread. -/
structure Tree where
  person : Person
  outcome : Outcome
  body : Body

namespace Tree

/-- The events of the tree, on a thread with these `RO_lobjects`. -/
def events (tree : Tree) (lobjects : Addr) : List Event :=
  (call tree.person tree.outcome (run tree.person tree.body) ⟨lobjects, []⟩).1

/-- The objects whose functions run. -/
def objects (tree : Tree) : List Addr :=
  match tree.outcome with
  | .runs cobj => cobj :: tree.body.objects
  | _ => []

/-- The lobjects loaded by the calls of the tree. -/
def loads (tree : Tree) : List Addr :=
  match tree.outcome with
  | .incomplete => []
  | .refused => [tree.person.lobjects]
  | .runs _ => tree.person.lobjects :: tree.body.loads

end Tree

theorem all_eq_head {a : Addr} {l : List Addr} :
    (∀ x ∈ a :: l, ∀ y ∈ a :: l, x = y) ↔ ∀ x ∈ l, x = a := by
  constructor
  · exact fun h x hx => h x (List.mem_cons_of_mem _ hx) a List.mem_cons_self
  · intro h x hx y hy
    have heq : ∀ z ∈ a :: l, z = a := List.forall_mem_cons.2 ⟨rfl, h⟩
    rw [heq x hx, heq y hy]

theorem mem_events {lobjects : Addr} {e : Event} :
    e ∈ Tree.events ⟨person, .runs cobj, b⟩ lobjects ↔
      e ∈ (run person b cobj (enter ⟨lobjects, []⟩ person cobj)).1 ∨
      e = .returned [] (leave ⟨lobjects, []⟩ person cobj b).objectStack := by
  rw [← List.mem_singleton, ← List.mem_append]
  rfl

/-- `rpc_cobject_current` and the object stack are right throughout a tree exactly
when all its functions that run are of one object. -/
theorem current_iff (tree : Tree) (lobjects : Addr) :
    (∀ e ∈ tree.events lobjects, Current e) ↔ ∀ a ∈ tree.objects, ∀ b ∈ tree.objects, a = b := by
  obtain ⟨person, outcome, body⟩ := tree
  cases outcome with
  | incomplete => exact ⟨fun _ => nofun, fun _ => nofun⟩
  | refused => exact ⟨fun _ => nofun, fun _ e he => List.mem_singleton.1 he ▸ rfl⟩
  | runs cobj =>
    rw [show Tree.objects ⟨person, .runs cobj, body⟩ = cobj :: body.objects from rfl, all_eq_head]
    constructor
    · exact fun h => objects_same body person _ rfl fun e he => h e (mem_events.2 (.inl he))
    · intro h e he
      obtain ⟨hrun, hstack⟩ := run_same (n := 0) body person (enter ⟨lobjects, []⟩ person cobj)
        rfl h
      rcases mem_events.1 he with he | rfl
      · exact hrun e he
      · show (leave ⟨lobjects, []⟩ person cobj body).objectStack = []
        rw [leave, rpcCobjectPop, hstack]
        rfl

/-- A function of object 1 calls one of object 2: in the nested one's body the
current object is still 1. -/
theorem current_outer : ∃ tree : Tree, tree.objects = [1, 2] ∧
    .moment 2 ⟨8⟩ ⟨8, [1, 2]⟩ ∈ tree.events 0 ∧ rpcCobjectCurrent ⟨8, [1, 2]⟩ = some 1 ∧
    ¬ ∀ e ∈ tree.events 0, Current e := by
  have hmem : .moment 2 ⟨8⟩ ⟨8, [1, 2]⟩ ∈
      Tree.events ⟨⟨7⟩, .runs 1, .call ⟨8⟩ (.runs 2) .done .done⟩ 0 :=
    List.mem_append_left _ (List.mem_cons_of_mem _ List.mem_cons_self)
  refine ⟨⟨⟨7⟩, .runs 1, .call ⟨8⟩ (.runs 2) .done .done⟩, rfl, hmem, rfl, fun h => ?_⟩
  cases h _ hmem

/-- Each body has its own person's lobjects exactly in the trees whose calls all
load the same. -/
theorem isolated_iff (tree : Tree) (lobjects : Addr) :
    (∀ e ∈ tree.events lobjects, Isolated e) ↔ ∀ a ∈ tree.loads, ∀ b ∈ tree.loads, a = b := by
  obtain ⟨person, outcome, body⟩ := tree
  cases outcome with
  | incomplete => exact ⟨fun _ => nofun, fun _ => nofun⟩
  | refused =>
    refine ⟨fun _ => all_eq_head.2 nofun, fun _ e he => ?_⟩
    rw [List.mem_singleton.1 he]
    trivial
  | runs cobj =>
    rw [show Tree.loads ⟨person, .runs cobj, body⟩ = person.lobjects :: body.loads from rfl,
      all_eq_head]
    constructor
    · exact fun h => loads_same body person cobj _ fun e he => h e (mem_events.2 (.inl he))
    · intro h e he
      rcases mem_events.1 he with he | rfl
      · exact (run_isolated body person cobj _ rfl h).1 e he
      · trivial

/-- A function called for person 7 makes a call through a local client, person 8:
after it the private object is in the local client's lobjects. -/
theorem lobjects_other : ∃ tree : Tree, tree.loads = [7, 8] ∧
    .moment 1 ⟨7⟩ ⟨8, [2]⟩ ∈ tree.events 0 ∧ (rpcLobjectGet ⟨8, [2]⟩).map Prod.fst = some 8 ∧
    ¬ ∀ e ∈ tree.events 0, Isolated e := by
  have hmem : .moment 1 ⟨7⟩ ⟨8, [2]⟩ ∈
      Tree.events ⟨⟨7⟩, .runs 1, .call ⟨8⟩ (.runs 2) .done .done⟩ 0 :=
    List.mem_append_left _ (.tail _ (.tail _ (.tail _ (.head _))))
  refine ⟨⟨⟨7⟩, .runs 1, .call ⟨8⟩ (.runs 2) .done .done⟩, rfl, hmem, rfl, fun h => ?_⟩
  cases (h _ hmem).1

end FfiRpc.Nested
