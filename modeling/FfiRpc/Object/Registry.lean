import FfiRpc.Store.Runs

/-!
# The object registry

`rpc_cobject_set`, `rpc_cobject_get` and `rpc_cobject_remove` over the name index
and the ID index (rpc_object.c:48-118), outside rpc functions: the stack of running
objects is empty. Both indexes are structs of the store, so a removal goes through
the tracker.

`registry_consistent`: in the runs that register no object whose ID is taken under
a name that is not, the indexes hold the same objects, each under its ID; a
registration that fails changes neither; a removal leaves no way to the object.
-/
namespace FfiRpc

open State

/-- `RO_cobject_bname`, `RO_cobject_bid` and the store they are in. -/
structure Registry where
  store : State
  bname : Addr
  bid : Addr

/-- `rpc_struct_get` of a struct. -/
def rpcStructGetStruct (st : State) (S : Addr) (key : CStr) : Option Addr :=
  match rpcStructGetInternal st S key with
  | .struct p => some p
  | _ => none

/-- mirrors src/rpc_object.c:57-64 (`rpc_cobject_set`) -/
def rpcCobjectSet (E : Env) (s : Registry) (cobjName : CStr) (cobj : Addr) :
    Except Fault (State × Nat) := do
  let (st1, ret) ← rpcStructSet E s.store s.bname cobjName (.struct cobj)
  if ret = 0 then rpcStructSet E st1 s.bid (rpcStructIdGet st1 cobj) (.struct cobj)
  else .ok (st1, ret)

/-- What `rpc_cobject_get` and `rpc_cobject_remove` find under a name or an ID. -/
def Registry.find (s : Registry) (cobjName : CStr) : Option Addr :=
  (rpcStructGetStruct s.store s.bname cobjName).or (rpcStructGetStruct s.store s.bid cobjName)

/-- mirrors src/rpc_object.c:65-71 (`rpc_cobject_get`) -/
def rpcCobjectGet (s : Registry) (cobjName : CStr) : Addr := (s.find cobjName).getD 0

/-- mirrors src/rpc_object.c:107-118 (`rpc_cobject_remove`) -/
def rpcCobjectRemove (E : Env) (s : Registry) (cobjName : CStr) : Except Fault (State × Nat) :=
  match s.find cobjName with
  | some toRemove => do
    let st1 ← rpcStructFree E s.store toRemove
    .ok (st1, 0)
  | none => .ok (s.store, 1)

/-! ## Runs -/

/-- A registrable object: live and not an index, or `NULL`. -/
def Registry.Callable (s : Registry) (cobj : Addr) : Prop :=
  cobj = 0 ∨ (∃ c, s.store.struct? cobj = some c) ∧ cobj ≠ s.bname ∧ cobj ≠ s.bid

/-- Both indexes are as they were. -/
def Registry.Same (s : Registry) (st' : State) : Prop :=
  ∀ key, st'.entry s.bname key = s.store.entry s.bname key ∧
    st'.entry s.bid key = s.store.entry s.bid key

/-- What the process does to the store between the calls: its operations keep it
well formed, and neither the indexes nor the IDs of registered objects change. -/
structure Registry.Quiet (s : Registry) (st' : State) : Prop where
  wf : WF st'
  same : s.Same st'
  live : (∃ b, st'.struct? s.bname = some b) ∧ ∃ b, st'.struct? s.bid = some b
  loose : ∀ S key p, st'.held S key = some p → p ≠ s.bname ∧ p ≠ s.bid
  ids : ∀ key p, s.store.held s.bid key = some p → rpcStructIdGet st' p = rpcStructIdGet s.store p

namespace Registry

inductive Act where
  | set (E : Env) (cobjName : CStr) (cobj : Addr)
  | remove (E : Env) (cobjName : CStr)
  | other

inductive Step (s : Registry) : Act → Registry → Prop
  | set {E cobjName cobj st' ret} : s.Callable cobj →
      rpcCobjectSet E s cobjName cobj = .ok (st', ret) →
      Step s (.set E cobjName cobj) { s with store := st' }
  | remove {E cobjName st' ret} : rpcCobjectRemove E s cobjName = .ok (st', ret) →
      Step s (.remove E cobjName) { s with store := st' }
  | other {st'} : s.Quiet st' → Step s .other { s with store := st' }

/-- mirrors src/rpc_object.c:44-48 (`rpc_object_init`), in any process -/
def Init (s : Registry) : Prop :=
  ∃ (st : State) (E E' : Env), WF st ∧ s = ⟨(rpcStructCreate E' (rpcStructCreate E st).1).1,
    (rpcStructCreate E st).2, (rpcStructCreate E' (rpcStructCreate E st).1).2⟩

def system : LTS Registry Act := ⟨Init, Step⟩

/-- The ID is free, unless the name is not. -/
def Clear (s : Registry) : Act → Prop
  | .set _ cobjName cobj => cobj = 0 ∨ s.store.entry s.bname cobjName ≠ none ∨
      s.store.entry s.bid (rpcStructIdGet s.store cobj) = none
  | _ => True

/-- The indexes hold the same objects, each under its own ID. -/
structure Consistent (s : Registry) : Prop where
  same : ∀ p, (∃ name, s.store.held s.bname name = some p) ↔ ∃ id, s.store.held s.bid id = some p
  own : ∀ id p, s.store.held s.bid id = some p → id = rpcStructIdGet s.store p

/-! ## The invariant -/

structure Ok (s : Registry) : Prop extends Consistent s where
  wf : WF s.store
  apart : s.bname ≠ s.bid
  live : (∃ b, s.store.struct? s.bname = some b) ∧ ∃ b, s.store.struct? s.bid = some b
  loose : ∀ S key p, s.store.held S key = some p → p ≠ s.bname ∧ p ≠ s.bid
  structs : ∀ S key e, S = s.bname ∨ S = s.bid → s.store.entry S key = some e →
    ∃ p, e = .struct p

end Registry

/-! ## Inserting an object -/

section
variable {E : Env} {st st' : State} {S p : Addr} {key : CStr}

/-- `st'` is `st` with the struct `p` under `S[key]`. -/
structure Added (st : State) (S : Addr) (key : CStr) (p : Addr) (st' : State) : Prop where
  wf : WF st'
  entry : ∀ S' key', st'.entry S' key' =
    if S' = S ∧ key' = key then some (.struct p) else st.entry S' key'
  struct : ∀ T c, st.struct? T = some c → ∃ c', st'.struct? T = some c' ∧ c'.ID = c.ID

/-- `rpc_struct_set` of an object in an index. -/
theorem set_cases (E : Env) (key : CStr) (hwf : WF st) {s : RpcStruct} (hs : st.struct? S = some s)
    (hstruct : ∀ e, st.entry S key = some e → ∃ q, e = .struct q)
    (hp : p = 0 ∨ ∃ c, st.struct? p = some c) :
    (rpcStructSet E st S key (.struct p) = .ok (st, 1) ∧ (p = 0 ∨ st.entry S key ≠ none)) ∨
    (p ≠ 0 ∧ st.entry S key = none ∧
      ∃ st', rpcStructSet E st S key (.struct p) = .ok (st', 0) ∧ Added st S key p st') := by
  have hentry := entry_of_struct hs key
  cases hk : s.map.lookup key with
  | some e =>
    obtain ⟨q, rfl⟩ := hstruct e (hentry.trans hk)
    refine .inl ⟨?_, .inr ?_⟩
    · rw [rpcStructSet, rpcStructExists, rpcStructGetInternal, hentry, hk]
      rfl
    · rw [hentry, hk]
      exact Option.some_ne_none _
  | none =>
    have hexists : rpcStructExists st S key = false := by
      rw [rpcStructExists, rpcStructGetInternal, hentry, hk]
      rfl
    by_cases hp0 : p = 0
    · refine .inl ⟨?_, .inl hp0⟩
      rw [rpcStructSet, hexists, if_neg Bool.false_ne_true, rpcStructSetInternal, hs, hp0]
      rfl
    · have hset : rpcStructSet E st S key (.struct p) = .ok ((trackElement st S key (.struct p)).setObj S
          (.struct { s with map := s.map.insert key (.struct p) }), 0) := by
        rw [rpcStructSet, hexists, if_neg Bool.false_ne_true, setInternal_fresh hs hk (e := .struct p) fun _ => hp0]
        rfl
      obtain ⟨c, hc⟩ := hp.resolve_left hp0
      obtain ⟨st', hok, hst', hinv'⟩ := set_step E hwf.inv hwf.stored
        (fun q hq => surplus_untracked hq) hs key (e := .struct p) trivial
        (fun q hq => absurd hq (Finset.notMem_empty q))
        (fun q hq _ => by cases hq; exact ⟨_, struct?_eq_some.1 hc, rfl⟩)
      rw [hset] at hok
      cases hok
      have hheap : (trackElement st S key (.struct p)).heap = st.heap :=
        heap_trackElement S key (.struct p)
      refine .inr ⟨hp0, hentry.trans hk, _, hset, hinv'.wf hst',
        entry_insert hs hheap key (.struct p), fun T c hT => ?_⟩
      rw [struct?_setObj_struct]
      split
      · rename_i hTS
        rw [hTS, hs] at hT
        cases hT
        exact ⟨_, rfl, rfl⟩
      · exact ⟨c, (struct?_congr (by rw [hheap])).trans hT, rfl⟩

theorem idGet_of_struct {T : Addr} {c : RpcStruct} (h : st.struct? T = some c) :
    rpcStructIdGet st T = c.ID.takeWhile (· ≠ 0) := by
  rw [rpcStructIdGet, h]
  rfl

theorem Added.live (h : Added st S key p st') {T : Addr} (hT : ∃ c, st.struct? T = some c) :
    ∃ c, st'.struct? T = some c := by
  obtain ⟨c, hc⟩ := hT
  obtain ⟨c', hc', -⟩ := h.struct T c hc
  exact ⟨c', hc'⟩

theorem Added.id (h : Added st S key p st') {T : Addr} (hT : ∃ c, st.struct? T = some c) :
    rpcStructIdGet st' T = rpcStructIdGet st T := by
  obtain ⟨c, hc⟩ := hT
  obtain ⟨c', hc', hid⟩ := h.struct T c hc
  rw [idGet_of_struct hc, idGet_of_struct hc', hid]

theorem Added.held (h : Added st S key p st') (S' : Addr) (key' : CStr) :
    st'.held S' key' = if S' = S ∧ key' = key then some p else st.held S' key' := by
  rw [State.held, h.entry]
  split <;> rfl

/-! ## Removing an object -/

/-- A struct that a release leaves. -/
theorem Outcome.struct {R : Set Addr} {P : Set (Addr × CStr)} (h : Outcome R P st st')
    {s : RpcStruct} (hs : st.struct? S = some s) (hS : S ∉ R) : ∃ s', st'.struct? S = some s' ∧
      s'.ID = s.ID ∧ ∀ k, ((S, k) ∈ P → st'.entry S k = none) ∧
        ((S, k) ∉ P → st'.entry S k = st.entry S k) := by
  obtain ⟨o', ho', hless⟩ := h.stay S _ hS (struct?_eq_some.1 hs)
  cases o' with
  | struct s' =>
    have hs' : st'.struct? S = some s' := struct?_eq_some.2 ho'
    refine ⟨s', hs', hless.1, fun k => ?_⟩
    rw [entry_of_struct hs', entry_of_struct hs]
    exact hless.2.2 k
  | sizedbuf b => cases hless
  | function f => cases hless

/-- What nothing holds stays, and what it holds. -/
theorem not_reclaimed {extra : Addr → Nat} {x a : Addr} (hx : a ≠ x)
    (ha : (∀ S k, st.held S k ≠ some a) ∨
      ∃ S k, st.held S k = some a ∧ S ≠ x ∧ ∀ S' k', st.held S' k' ≠ some S) :
    a ∉ st.reclaimed extra {x} ∅ := by
  have hloose : ∀ b, b ≠ x → (∀ S k, st.held S k ≠ some b) → b ∉ st.reclaimed extra {x} ∅ := by
    intro b hb hno hrec
    cases hrec with
    | root h => exact hb h
    | orphan hpin hheld hall => exact hno _ _ hheld
  rcases ha with hno | ⟨S, k, hheld, hS, hno⟩
  · exact hloose a hx hno
  · intro hrec
    cases hrec with
    | root h => exact hx h
    | orphan hpin hheld' hall =>
      exact hloose S hS hno (hall (S, k) hheld (Set.notMem_empty _))

theorem held_of_getStruct (h : rpcStructGetStruct st S key = some p) : st.held S key = some p := by
  unfold rpcStructGetStruct rpcStructGetInternal at h
  cases he : st.entry S key with
  | none => rw [he] at h; cases h
  | some e =>
    rw [he] at h
    cases e <;> cases h
    rw [State.held, he]
    rfl

end

/-! ## The calls -/

namespace Registry

variable {s s' : Registry} {st' : State}

theorem held_of_find {key : CStr} {p : Addr} (h : s.find key = some p) :
    ∃ S, (S = s.bname ∨ S = s.bid) ∧ s.store.held S key = some p := by
  rcases Option.or_eq_some_iff.1 h with h | ⟨-, h⟩
  · exact ⟨s.bname, .inl rfl, held_of_getStruct h⟩
  · exact ⟨s.bid, .inr rfl, held_of_getStruct h⟩

/-- An object in an index is a live struct. -/
theorem Ok.object (h : Ok s) {S : Addr} (hS : S = s.bname ∨ S = s.bid) {key : CStr} {p : Addr}
    (hp : s.store.held S key = some p) : ∃ c, s.store.struct? p = some c := by
  obtain ⟨e, he, ht⟩ := held_eq_some.1 hp
  obtain ⟨q, rfl⟩ := h.structs S key e hS he
  cases ht
  obtain ⟨o, ho, hty⟩ := h.wf.inv.typed S key _ _ he rfl (Set.notMem_empty _)
    (Finset.notMem_empty _)
  cases o with
  | struct c => exact ⟨c, struct?_eq_some.2 ho⟩
  | sizedbuf b => cases hty
  | function f => cases hty

/-- `rpc_cobject_remove`. -/
theorem Ok.remove (h : Ok s) (E : Env) (name : CStr) :
    (s.find name = none ∧ rpcCobjectRemove E s name = .ok (s.store, 1)) ∨
    ∃ x st', s.find name = some x ∧ x ≠ 0 ∧ rpcCobjectRemove E s name = .ok (st', 0) ∧
      Ok { s with store := st' } ∧
      ∀ S key, S = s.bname ∨ S = s.bid → st'.held S key ≠ some x := by
  cases hfind : s.find name with
  | none =>
    refine .inl ⟨rfl, ?_⟩
    rw [rpcCobjectRemove, hfind]
  | some x =>
    obtain ⟨S, hS, hheld⟩ := held_of_find hfind
    obtain ⟨c, hc⟩ := h.object hS hheld
    obtain ⟨hxname, hxid⟩ := h.loose S name x hheld
    obtain ⟨st', hok, hinv', hout⟩ := free_spec E h.wf.inv (struct?_eq_some.1 hc)
      (Finset.notMem_empty x)
    have hindex : ∀ T, T = s.bname ∨ T = s.bid → (∃ b', st'.struct? T = some b') ∧
        ∀ key q, st'.held T key = some q ↔ s.store.held T key = some q ∧ q ≠ x := by
      intro T hT
      have hlive : ∃ b, s.store.struct? T = some b := by
        rcases hT with rfl | rfl
        · exact h.live.1
        · exact h.live.2
      have hTx : T ≠ x ∧ ∀ S k, s.store.held S k ≠ some T := by
        rcases hT with rfl | rfl
        · exact ⟨hxname.symm, fun S k hk => (h.loose S k _ hk).1 rfl⟩
        · exact ⟨hxid.symm, fun S k hk => (h.loose S k _ hk).2 rfl⟩
      obtain ⟨b, hb⟩ := hlive
      obtain ⟨b', hb', -, hentry⟩ := hout.struct hb (not_reclaimed hTx.1 (.inl hTx.2))
      refine ⟨⟨b', hb'⟩, fun key q => ?_⟩
      by_cases hkey : s.store.held T key = some x
      · have hgone := (hentry key).1 hkey
        rw [hkey, State.held, hgone]
        constructor
        · intro hq
          cases hq
        · rintro ⟨hq, hne⟩
          cases hq
          exact absurd rfl hne
      · have hsame := (hentry key).2 hkey
        rw [State.held, hsame]
        refine ⟨fun hq => ⟨hq, ?_⟩, fun hq => hq.1⟩
        rintro rfl
        exact hkey hq
    have hfewer : ∀ T key q, st'.held T key = some q → s.store.held T key = some q := by
      intro T key q hq
      obtain ⟨e, he, ht⟩ := held_eq_some.1 hq
      exact held_eq_some.2 ⟨e, hout.fewer he, ht⟩
    have hx0 : x ≠ 0 := by
      rintro rfl
      rw [struct?_eq_some, h.wf.inv.null] at hc
      cases hc
    refine .inr ⟨x, st', rfl, hx0, ?_, ?_, fun T key hT hq => ((hindex T hT).2 key x).1 hq |>.2 rfl⟩
    · rw [rpcCobjectRemove, hfind]
      show (do
        let st1 ← rpcFree E .struct s.store x
        Except.ok (st1, 0)) = _
      rw [show rpcFree E .struct s.store x = .ok st' from hok]
      rfl
    · exact {
        same := fun p => by
          simp only [(hindex _ (.inl rfl)).2, (hindex _ (.inr rfl)).2, exists_and_right, h.same p]
        own := by
          intro id p hp
          obtain ⟨hp, hpx⟩ := ((hindex _ (.inr rfl)).2 id p).1 hp
          obtain ⟨d, hd⟩ := h.object (.inr rfl) hp
          obtain ⟨d', hd', hid, -⟩ := hout.struct hd (not_reclaimed hpx (.inr ⟨s.bid, id, hp,
            hxid.symm, fun S k hk => (h.loose S k _ hk).2 rfl⟩))
          rw [h.own id p hp, idGet_of_struct hd, idGet_of_struct hd', hid]
        wf := hinv'.wf (h.wf.stored.outcome hout)
        apart := h.apart
        live := ⟨(hindex _ (.inl rfl)).1, (hindex _ (.inr rfl)).1⟩
        loose := fun T key q hq => h.loose T key q (hfewer T key q hq)
        structs := fun T key e hT he => h.structs T key e hT (hout.fewer he) }

/-- The objects of an index with one new entry. -/
theorem exists_held_iff {st : State} {T cobj : Addr} {key0 : CStr}
    (hnew : st'.held T key0 = some cobj) (hfree : st.entry T key0 = none)
    (hold : ∀ key, key ≠ key0 → st'.held T key = st.held T key) (p : Addr) :
    (∃ key, st'.held T key = some p) ↔ p = cobj ∨ ∃ key, st.held T key = some p := by
  constructor
  · intro h
    obtain ⟨key, hk⟩ := h
    by_cases hkey : key = key0
    · rw [hkey, hnew] at hk
      exact .inl (Option.some.inj hk).symm
    · exact .inr ⟨key, (hold key hkey).symm.trans hk⟩
  · intro h
    rcases h with rfl | ⟨key, hk⟩
    · exact ⟨key0, hnew⟩
    · refine ⟨key, (hold key ?_).trans hk⟩
      rintro rfl
      rw [State.held, hfree] at hk
      cases hk

/-- An object in both indexes. -/
theorem Ok.both (h : Ok s) {name : CStr} {cobj : Addr} {st1 st2 : State}
    (hadd : Added s.store s.bname name cobj st1)
    (hadd2 : Added st1 s.bid (rpcStructIdGet s.store cobj) cobj st2)
    (hname : s.store.entry s.bname name = none)
    (hid : s.store.entry s.bid (rpcStructIdGet s.store cobj) = none)
    (hcobj : (∃ c, s.store.struct? cobj = some c) ∧ cobj ≠ s.bname ∧ cobj ≠ s.bid) :
    Ok { s with store := st2 } := by
  obtain ⟨hstruct, hnename, hneid⟩ := hcobj
  have hheld : ∀ S key, st2.held S key =
      if S = s.bid ∧ key = rpcStructIdGet s.store cobj then some cobj
      else if S = s.bname ∧ key = name then some cobj else s.store.held S key := by
    intro S key
    rw [hadd2.held, hadd.held]
  have hbname : ∀ p, (∃ key, st2.held s.bname key = some p) ↔
      p = cobj ∨ ∃ key, s.store.held s.bname key = some p := exists_held_iff
    (by rw [hheld, if_neg fun hc => h.apart hc.1, if_pos ⟨rfl, rfl⟩]) hname
    fun key hkey => by rw [hheld, if_neg fun hc => h.apart hc.1, if_neg fun hc => hkey hc.2]
  have hbid : ∀ p, (∃ key, st2.held s.bid key = some p) ↔
      p = cobj ∨ ∃ key, s.store.held s.bid key = some p := exists_held_iff
    (by rw [hheld, if_pos ⟨rfl, rfl⟩]) hid
    fun key hkey => by
      rw [hheld, if_neg fun hc => hkey hc.2, if_neg fun hc => h.apart hc.1.symm]
  exact {
    same := fun p => (hbname p).trans ((or_congr_right (h.same p)).trans (hbid p).symm)
    own := by
      intro id p (hp : st2.held s.bid id = some p)
      show id = rpcStructIdGet st2 p
      rw [hheld, if_neg (c := s.bid = s.bname ∧ id = name) fun hc => h.apart hc.1.symm] at hp
      split at hp
      · rename_i hown
        cases hp
        rw [hadd2.id (hadd.live hstruct), hadd.id hstruct]
        exact hown.2
      · have hobject := h.object (.inr rfl) hp
        rw [hadd2.id (hadd.live hobject), hadd.id hobject]
        exact h.own id p hp
    wf := hadd2.wf
    apart := h.apart
    live := ⟨hadd2.live (hadd.live h.live.1), hadd2.live (hadd.live h.live.2)⟩
    loose := by
      intro S key q (hq : st2.held S key = some q)
      rw [hheld] at hq
      split at hq
      · cases hq
        exact ⟨hnename, hneid⟩
      · split at hq
        · cases hq
          exact ⟨hnename, hneid⟩
        · exact h.loose S key q hq
    structs := by
      intro S key e hS he
      rw [hadd2.entry] at he
      split at he
      · exact ⟨cobj, (Option.some.inj he).symm⟩
      · rw [hadd.entry] at he
        split at he
        · exact ⟨cobj, (Option.some.inj he).symm⟩
        · exact h.structs S key e hS he }

/-- `rpc_cobject_set`, where the ID is free unless the name is not. -/
theorem Ok.set (h : Ok s) (E : Env) {name : CStr} {cobj : Addr} (hcall : s.Callable cobj)
    (hclear : s.Clear (.set E name cobj)) : ∃ st' ret,
      rpcCobjectSet E s name cobj = .ok (st', ret) ∧ Ok { s with store := st' } ∧
      (ret ≠ 0 → s.Same st') := by
  obtain ⟨b, hb⟩ := h.live.1
  have hlive : cobj = 0 ∨ ∃ c, s.store.struct? cobj = some c := hcall.imp id fun hc => hc.1
  rcases set_cases E name h.wf hb (fun e he => h.structs _ name e (.inl rfl) he) hlive with
    ⟨hset, -⟩ | ⟨hcobj, hname, st1, hset, hadd⟩
  · refine ⟨s.store, 1, ?_, h, fun _ _ => ⟨rfl, rfl⟩⟩
    rw [rpcCobjectSet, hset]
    rfl
  · obtain ⟨hstruct, hnename, hneid⟩ := hcall.resolve_left hcobj
    have hidfree : s.store.entry s.bid (rpcStructIdGet s.store cobj) = none := by
      rcases hclear with hc | hc | hc
      · exact absurd hc hcobj
      · exact absurd hname hc
      · exact hc
    obtain ⟨b2, hb2⟩ := h.live.2
    obtain ⟨b2', hb2', -⟩ := hadd.struct _ _ hb2
    have hother : ∀ key, st1.entry s.bid key = s.store.entry s.bid key := by
      intro key
      rw [hadd.entry, if_neg fun hc => h.apart hc.1.symm]
    rcases set_cases E (rpcStructIdGet s.store cobj) hadd.wf hb2'
        (fun e he => h.structs _ _ e (.inr rfl) (hother _ ▸ he))
        (.inr (hadd.live hstruct)) with
      ⟨-, hfail⟩ | ⟨-, -, st2, hset2, hadd2⟩
    · rcases hfail with hfail | hfail
      · exact absurd hfail hcobj
      · exact absurd ((hother _).trans hidfree) hfail
    · refine ⟨st2, 0, ?_, ?_, fun hret => absurd rfl hret⟩
      · rw [rpcCobjectSet, hset]
        show rpcStructSet E st1 s.bid (rpcStructIdGet st1 cobj) (.struct cobj) = _
        rw [hadd.id hstruct, hset2]
      · exact h.both hadd hadd2 hname hidfree ⟨hstruct, hnename, hneid⟩

/-- Anything else the process does. -/
theorem Ok.other (h : Ok s) (hq : s.Quiet st') : Ok { s with store := st' } := by
  have hheld : ∀ S key, S = s.bname ∨ S = s.bid → st'.held S key = s.store.held S key := by
    intro S key hS
    rw [State.held, State.held]
    rcases hS with rfl | rfl
    · rw [(hq.same key).1]
    · rw [(hq.same key).2]
  exact {
    same := by
      intro p
      show (∃ name, st'.held s.bname name = some p) ↔ ∃ id, st'.held s.bid id = some p
      simp only [hheld _ _ (.inl rfl), hheld _ _ (.inr rfl)]
      exact h.same p
    own := by
      intro id p (hp : st'.held s.bid id = some p)
      rw [hheld _ _ (.inr rfl)] at hp
      show id = rpcStructIdGet st' p
      rw [hq.ids id p hp]
      exact h.own id p hp
    wf := hq.wf
    apart := h.apart
    live := hq.live
    loose := hq.loose
    structs := by
      intro S key e hS he
      refine h.structs S key e hS ?_
      rcases hS with rfl | rfl
      · rw [← (hq.same key).1]
        exact he
      · rw [← (hq.same key).2]
        exact he }

/-- A new struct: nothing holds it, and nothing else changes. -/
theorem create_new (E : Env) {st : State} (h : WF st) : WF (rpcStructCreate E st).1 ∧
    (∀ S key, (rpcStructCreate E st).1.entry S key = st.entry S key) ∧
    (∀ S key, st.held S key ≠ some (rpcStructCreate E st).2) ∧
    (∃ b, (rpcStructCreate E st).1.struct? (rpcStructCreate E st).2 = some b) ∧
    (∀ key, (rpcStructCreate E st).1.entry (rpcStructCreate E st).2 key = none) ∧
    ∀ T c, st.struct? T = some c →
      (rpcStructCreate E st).1.struct? T = some c ∧ T ≠ (rpcStructCreate E st).2 := by
  have hdead : st.heap.lookup (rpcStructCreate E st).2 = none := malloc_dead E st
  obtain ⟨hst', hinv'⟩ := create_step E h.inv h.stored (o := .struct ⟨∅, E.random st ++ [0], 0⟩)
    fun s hs => by
      cases hs
      exact ⟨by rw [List.length_append, E.random_length]; rfl, rfl⟩
  have hnone : ∀ key, (rpcStructCreate E st).1.entry (rpcStructCreate E st).2 key = none :=
    create_none E (o := .struct ⟨∅, E.random st ++ [0], 0⟩) fun s hs => by cases hs; rfl
  have hother : ∀ T, T ≠ (rpcStructCreate E st).2 →
      (rpcStructCreate E st).1.heap.lookup T = st.heap.lookup T := by
    intro T hT
    show (st.setObj _ _).heap.lookup T = _
    rw [lookup_setObj]
    exact if_neg hT
  refine ⟨hinv'.wf hst', fun S key => ?_, fun S key hheld => ?_, ?_, hnone, fun T c hT => ?_⟩
  · by_cases hS : S = (rpcStructCreate E st).2
    · rw [hS, hnone, State.entry, State.struct?, hdead]
      rfl
    · exact entry_congr (hother S hS) key
  · obtain ⟨e, he, ht⟩ := held_eq_some.1 hheld
    obtain ⟨o, ho, -⟩ := h.inv.typed S key e _ he ht (Set.notMem_empty _) (Finset.notMem_empty _)
    rw [hdead] at ho
    cases ho
  · exact ⟨_, (struct?_setObj_struct ..).trans (if_pos rfl)⟩
  · have hne : T ≠ (rpcStructCreate E st).2 := by
      rintro rfl
      rw [struct?_eq_some, hdead] at hT
      cases hT
    exact ⟨(struct?_congr (hother T hne)).trans hT, hne⟩

theorem init_ok (h : Init s) : Ok s := by
  obtain ⟨st, E, E', hwf, rfl⟩ := h
  obtain ⟨hwf1, hentry1, hno1, ⟨b1, hlive1⟩, hnone1, -⟩ := create_new E hwf
  obtain ⟨hwf2, hentry2, hno2, hlive2, hnone2, hkeep2⟩ := create_new E' hwf1
  obtain ⟨hlive1, hapart⟩ := hkeep2 _ _ hlive1
  have hheld1 : ∀ S key, State.held (rpcStructCreate E st).1 S key = st.held S key := by
    intro S key
    rw [State.held, hentry1, State.held]
  have hheld2 : ∀ S key, State.held (rpcStructCreate E' (rpcStructCreate E st).1).1 S key =
      State.held (rpcStructCreate E st).1 S key := by
    intro S key
    rw [State.held, hentry2, State.held]
  have hempty : ∀ S key, S = (rpcStructCreate E st).2 ∨
      S = (rpcStructCreate E' (rpcStructCreate E st).1).2 →
      State.entry (rpcStructCreate E' (rpcStructCreate E st).1).1 S key = none := by
    intro S key hS
    rcases hS with rfl | rfl
    · rw [hentry2, hnone1]
    · exact hnone2 key
  have hnoheld : ∀ S key p, S = (rpcStructCreate E st).2 ∨
      S = (rpcStructCreate E' (rpcStructCreate E st).1).2 →
      State.held (rpcStructCreate E' (rpcStructCreate E st).1).1 S key ≠ some p := by
    intro S key p hS hp
    rw [State.held, hempty S key hS] at hp
    cases hp
  exact {
    same := by
      intro p
      constructor
      · rintro ⟨key, hk⟩
        exact absurd hk (hnoheld _ key p (.inl rfl))
      · rintro ⟨key, hk⟩
        exact absurd hk (hnoheld _ key p (.inr rfl))
    own := fun id p hp => absurd hp (hnoheld _ id p (.inr rfl))
    wf := hwf2
    apart := hapart
    live := ⟨⟨b1, hlive1⟩, hlive2⟩
    loose := by
      intro S key p hp
      constructor
      · rintro rfl
        exact hno1 S key ((hheld1 S key).symm.trans ((hheld2 S key).symm.trans hp))
      · rintro rfl
        exact hno2 S key ((hheld2 S key).symm.trans hp)
    structs := by
      intro S key e hS he
      rw [hempty S key hS] at he
      cases he }

/-- One step. -/
theorem step_ok {a : Act} (h : Ok s) (hs : Step s a s') (hclear : s.Clear a) : Ok s' := by
  cases hs with
  | set hcall hok =>
    obtain ⟨st', ret, hok', hnext, -⟩ := h.set _ hcall hclear
    rw [hok'] at hok
    cases hok
    exact hnext
  | remove hok =>
    rename_i E name st' ret
    rcases h.remove E name with ⟨-, hok'⟩ | ⟨x, st'', -, -, hok', hnext, -⟩
    · rw [hok'] at hok
      cases hok
      exact h
    · rw [hok'] at hok
      cases hok
      exact hnext
  | other hq => exact h.other hq

/-- In the runs that register no object whose ID is taken under a name that is
not. -/
theorem registry_consistent (h : (system.restrict Clear).Reachable s) : Consistent s ∧
    (∀ E name cobj st' ret, s.Callable cobj → s.Clear (.set E name cobj) →
      rpcCobjectSet E s name cobj = .ok (st', ret) → ret ≠ 0 → s.Same st') ∧
    ∀ E name st', rpcCobjectRemove E s name = .ok (st', 0) →
      rpcCobjectGet s name ≠ 0 ∧
        ∀ key, rpcCobjectGet { s with store := st' } key ≠ rpcCobjectGet s name := by
  have hinv : Ok s := by
    refine h.invariant (I := Ok) (fun s h0 => init_ok h0) fun s a s' hi hs => ?_
    exact step_ok hi hs.1 hs.2
  refine ⟨hinv.toConsistent, fun E name cobj st' ret hcall hclear hok => ?_,
    fun E name st' hok => ?_⟩
  · obtain ⟨st'', ret', hok', -, hsame⟩ := hinv.set E hcall hclear
    rw [hok'] at hok
    cases hok
    exact hsame
  · rcases hinv.remove E name with ⟨-, hok'⟩ | ⟨x, st'', hfind, hx0, hok', -, hgone⟩
    · rw [hok'] at hok
      cases hok
    · rw [hok'] at hok
      cases hok
      have hx : rpcCobjectGet s name = x := by
        rw [rpcCobjectGet, hfind]
        rfl
      refine ⟨hx.trans_ne hx0, fun key hkey => ?_⟩
      rw [hx, rpcCobjectGet] at hkey
      cases hkeyfind : Registry.find { s with store := st' } key with
      | none =>
        rw [hkeyfind] at hkey
        exact hx0 hkey.symm
      | some y =>
        rw [hkeyfind] at hkey
        obtain ⟨S, hS, hheld⟩ := held_of_find hkeyfind
        exact hgone S key hS (hheld.trans (congrArg some hkey))

/-- One object, registered. -/
theorem registry_consistent_one : ∃ s, (system.restrict Clear).Reachable s ∧
    s.find [102] = some 1 ∧ Consistent s ∧
    (∀ E name cobj st' ret, s.Callable cobj → s.Clear (.set E name cobj) →
      rpcCobjectSet E s name cobj = .ok (st', ret) → ret ≠ 0 → s.Same st') ∧
    ∀ E name st', rpcCobjectRemove E s name = .ok (st', 0) →
      rpcCobjectGet s name ≠ 0 ∧
        ∀ key, rpcCobjectGet { s with store := st' } key ≠ rpcCobjectGet s name := by
  have hwf := (create_new .bump (empty_inv.wf empty_stored)).1
  have h0 : (system.restrict Clear).Reachable _ := .init ⟨_, .bump, .bump, hwf, rfl⟩
  have h1 : (system.restrict Clear).Reachable _ := h0.step
    (show (system.restrict Clear).step _ (.set .bump [102] 1) _ from
      ⟨.set (.inr ⟨⟨_, rfl⟩, by decide, by decide⟩) rfl, .inr (.inr rfl)⟩)
  exact ⟨_, h1, rfl, registry_consistent h1⟩

/-- An object and its copy, which has the same ID, registered under two names: the
second registration fails and leaves the copy in the name index. -/
theorem set_half : ∃ s st', system.Reachable s ∧ s.Callable 2 ∧
    rpcCobjectSet .bump s [103] 2 = .ok (st', 1) ∧ ¬ s.Same st' ∧
    ¬ Consistent { s with store := st' } := by
  have hcreate : api.Reachable _ := LTS.Reachable.step (.init rfl)
    (show api.step .empty (.bump, .structCreate) _ from ⟨trivial, rfl⟩)
  have hcopy : api.Reachable _ := hcreate.step
    (show api.step _ (.bump, .copy 1) _ from ⟨⟨_, rfl⟩, rfl⟩)
  have h0 : system.Reachable _ := .init ⟨_, .bump, .bump, api_wf hcopy, rfl⟩
  have h1 : system.Reachable _ := h0.step
    (show system.step _ (.set .bump [102] 1) _ from
      .set (.inr ⟨⟨_, rfl⟩, by decide, by decide⟩) rfl)
  obtain ⟨s, hs, hcall, hset⟩ : ∃ s, system.Reachable s ∧ s.Callable 2 ∧ ∃ st',
      rpcCobjectSet .bump s [103] 2 = .ok (st', 1) ∧ st'.held s.bname [103] = some 2 ∧
      s.store.held s.bname [103] = none ∧
      st'.held s.bid (rpcStructIdGet st' 2) = some 1 :=
    ⟨_, h1, .inr ⟨⟨_, rfl⟩, by decide, by decide⟩, _, rfl, rfl, rfl, rfl⟩
  obtain ⟨st', hok, hnew, hold, hother⟩ := hset
  refine ⟨s, st', hs, hcall, hok, fun h => ?_, fun h => ?_⟩
  · rw [State.held, (h [103]).1] at hnew
    cases hold.symm.trans hnew
  · obtain ⟨id, hid⟩ := (h.same 2).1 ⟨[103], hnew⟩
    have hown := h.own id 2 hid
    subst hown
    cases hother.symm.trans hid

end Registry

end FfiRpc
