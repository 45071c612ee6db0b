import FfiRpc.Core.Bytes
import FfiRpc.Core.Nesting
import FfiRpc.Store.DeepCopy

/-!
# What a deep copy copies

`DeepItem` relates an element of the original to the element of the copy: equal values,
copies of the objects, again so related, and within each struct the same keys sharing an
object. `deepCopy_spec` follows `rpc_struct_deep_copy` through all levels of nesting,
relative to the state `st0` in which the outermost call was made; `Copying` is the
invariant of its loop over one struct.
-/
namespace FfiRpc

open State
open Nesting (DepthLE)

/-! ## Original and copy -/

/-- `e'` is the deep copy of `e`; the originals are in `A`, the copies in `B`. A copied
sizedbuf has the bytes that the evaluation order of the arguments leaves it
(`ArgOrder.bytes`), a copied function a prototype of its own even if there was none. -/
inductive DeepItem (args : ArgOrder) (st : State) (A B : Set Addr) : RpcTypeT → RpcTypeT → Prop
  | number {raw} : DeepItem args st A B (.number raw) (.number raw)
  | real {raw} : DeepItem args st A B (.real raw) (.real raw)
  | string {q q' t} : DeepItem args st A B (.string q t) (.string q' t)
  | unknown {p} : DeepItem args st A B (.unknown p) (.unknown p)
  | sizedbuf {p q b} : p ∈ A → q ∈ B → st.heap.lookup p = some (.sizedbuf b) →
      st.heap.lookup q = some (.sizedbuf ⟨args.bytes b.buf⟩) →
      DeepItem args st A B (.sizedbuf p) (.sizedbuf q)
  | function {p q f} : p ∈ A → q ∈ B → st.heap.lookup p = some (.function f) →
      st.heap.lookup q = some (.function { f with prototype := some (f.prototype.getD []) }) →
      DeepItem args st A B (.function p) (.function q)
  | struct {S c s m} : S ∈ A → c ∈ B → st.struct? S = some s → st.struct? c = some m →
      m.ID = s.ID → m.copyof = S →
      (∀ k, m.map.lookup k = none ↔ s.map.lookup k = none) →
      (∀ k k', st.held c k = st.held c k' ↔ st.held S k = st.held S k') →
      (∀ k e e', s.map.lookup k = some e → m.map.lookup k = some e' → DeepItem args st A B e e') →
      DeepItem args st A B (.struct S) (.struct c)

/-- The 64 characters of an ID, and the terminator. -/
def RpcStruct.Named (s : RpcStruct) : Prop :=
  ∃ id, s.ID = id ++ [0] ∧ id.length = 64 ∧ (0 : UInt8) ∉ id

def State.Named (st : State) : Prop := ∀ S s, st.struct? S = some s → s.Named

section
variable {args : ArgOrder} {st st' : State} {A B B' : Set Addr} {e e' : RpcTypeT}

/-- The relation only depends on the objects involved. -/
theorem DeepItem.later (h : DeepItem args st A B e e')
    (hA : ∀ a ∈ A, ∀ o, st.heap.lookup a = some o → st'.heap.lookup a = some o)
    (hB : ∀ a ∈ B, ∀ o, st.heap.lookup a = some o → st'.heap.lookup a = some o) (hsub : B ⊆ B') :
    DeepItem args st' A B' e e' := by
  induction h with
  | number => exact .number
  | real => exact .real
  | string => exact .string
  | unknown => exact .unknown
  | sizedbuf hp hq hb hb' => exact .sizedbuf hp (hsub hq) (hA _ hp _ hb) (hB _ hq _ hb')
  | function hp hq hf hf' => exact .function hp (hsub hq) (hA _ hp _ hf) (hB _ hq _ hf')
  | @struct S c s m hS hc hs hm hid hof hkeys hshare _ ih =>
    have hs' := hA _ hS _ (struct?_eq_some.1 hs)
    have hm' := hB _ hc _ (struct?_eq_some.1 hm)
    have hSk : ∀ k, st'.held S k = st.held S k :=
      held_congr (hs'.trans (struct?_eq_some.1 hs).symm)
    have hck : ∀ k, st'.held c k = st.held c k :=
      held_congr (hm'.trans (struct?_eq_some.1 hm).symm)
    refine .struct hS (hsub hc) (struct?_eq_some.2 hs') (struct?_eq_some.2 hm') hid hof hkeys ?_ ih
    intro k k'
    rw [hck, hck, hSk, hSk]
    exact hshare k k'

theorem DeepItem.type (h : DeepItem args st A B e e') : e'.type = e.type := by
  cases h <;> rfl

/-- An element that refers to no object, with its value. -/
theorem DeepItem.of_value (ht : e.target = none) (hne : e ≠ .none) (hv : e.SameValue e') :
    DeepItem args st A B e e' := by
  cases e with
  | none => exact absurd rfl hne
  | number raw => rw [show e' = .number raw from hv]; exact .number
  | real raw => rw [show e' = .real raw from hv]; exact .real
  | string q t =>
    cases e' with
    | string q' t' => rw [show t' = t from hv]; exact .string
    | _ => cases hv
  | unknown p => rw [show e' = .unknown p from hv]; exact .unknown
  | struct p => cases ht
  | sizedbuf p => cases ht
  | function p => cases ht

/-- What it says of two structs. -/
theorem DeepItem.struct_inv {S c : Addr} (h : DeepItem args st A B (.struct S) (.struct c)) :
    ∃ s m, c ∈ B ∧ S ∈ A ∧ st.struct? S = some s ∧ st.struct? c = some m ∧ m.ID = s.ID ∧
      m.copyof = S ∧ (∀ k, m.map.lookup k = none ↔ s.map.lookup k = none) ∧
      (∀ k k', st.held c k = st.held c k' ↔ st.held S k = st.held S k') ∧
      ∀ k e e', s.map.lookup k = some e → m.map.lookup k = some e' → DeepItem args st A B e e' := by
  cases h with
  | struct hS hc hs hm hid hof hkeys hshare hitems =>
    exact ⟨_, _, hc, hS, hs, hm, hid, hof, hkeys, hshare, hitems⟩

/-- `T` has in the copy `c` the place that `S` has in the original `o`. -/
inductive Twin (st : State) (o c : Addr) : Addr → Addr → Prop
  | root : Twin st o c o c
  | entry {S T p q k} : Twin st o c S T → st.entry S k = some (.struct p) →
      st.entry T k = some (.struct q) → Twin st o c p q

theorem Twin.nested {o c S T : Addr} (h : Twin st o c S T) : st.Nested o S := by
  induction h with
  | root => exact .refl
  | entry _ hp _ ih => exact ih.tail ⟨_, hp⟩

/-- Structs at one place are original and copy. -/
theorem DeepItem.twin {o c S T : Addr} (h : DeepItem args st A B (.struct o) (.struct c))
    (hT : Twin st o c S T) : DeepItem args st A B (.struct S) (.struct T) := by
  induction hT with
  | root => exact h
  | @entry S T p q k _ hp hq ih =>
    obtain ⟨s, m, -, -, hs, hm, -, -, -, -, hitems⟩ := ih.struct_inv
    rw [entry_of_struct hs] at hp
    rw [entry_of_struct hm] at hq
    exact hitems k _ _ hp hq

/-- Every struct that hangs from the copy has an original. By induction on the path from
the root of the copy: the key that leads on is a key of the original too. -/
theorem DeepItem.exists_twin {o c T : Addr} {t : RpcStruct}
    (h : DeepItem args st A B (.struct o) (.struct c)) (hwf : WF st) (hT : st.Hangs c T)
    (ht : st.struct? T = some t) : ∃ S, Twin st o c S T := by
  induction hT generalizing t with
  | refl => exact ⟨o, .root⟩
  | @tail P T _ hlink ih =>
    obtain ⟨k, hk⟩ := hlink
    obtain ⟨e', he', ht'⟩ := held_eq_some.1 hk
    obtain ⟨p, hp, hpk⟩ := entry_eq_some.1 he'
    obtain ⟨P0, hP0⟩ := ih hp
    obtain ⟨s, m, -, -, hs, hm, -, -, hkeys, -, hitems⟩ := (h.twin hP0).struct_inv
    rw [hp] at hm
    cases hm
    cases he : s.map.lookup k with
    | none =>
      rw [(hkeys k).2 he] at hpk
      cases hpk
    | some e =>
      have hitem := hitems k e e' he hpk
      -- the element is a struct, since `T` is one
      obtain ⟨x, hx, hty⟩ := hwf.inv.typed P k e' T he' ht' (Set.notMem_empty T)
        (Finset.notMem_empty _)
      rw [struct?_eq_some.1 ht] at hx
      cases hx
      cases hitem with
      | @struct S' C' _ _ hS' =>
        cases ht'
        exact ⟨S', hP0.entry (by rw [entry_of_struct hs, he]) he'⟩
      | sizedbuf => cases hty
      | function => cases hty
      | _ => cases ht'

/-- A struct that hangs from the copy is the copy of one nested in the original. -/
theorem DeepItem.original {S c T : Addr} {t : RpcStruct}
    (h : DeepItem args st A B (.struct S) (.struct c)) (hwf : WF st) (hT : st.Hangs c T)
    (ht : st.struct? T = some t) :
    ∃ T0, st.Nested S T0 ∧ DeepItem args st A B (.struct T0) (.struct T) := by
  obtain ⟨T0, htwin⟩ := h.exists_twin hwf hT ht
  exact ⟨T0, htwin.nested, h.twin htwin⟩

/-- A struct nested in the original has a copy. -/
theorem DeepItem.copy {S c T : Addr} (h : DeepItem args st A B (.struct S) (.struct c))
    (hT : st.Nested S T) : ∃ C, DeepItem args st A B (.struct T) (.struct C) := by
  induction hT with
  | refl => exact ⟨c, h⟩
  | @tail P T _ hedge ih =>
    obtain ⟨k, hk⟩ := hedge
    obtain ⟨C, hcopy⟩ := ih
    obtain ⟨s, m, -, -, hs, hm, -, -, hkeys, -, hitems⟩ := hcopy.struct_inv
    rw [entry_of_struct hs] at hk
    cases he' : m.map.lookup k with
    | none =>
      rw [hkeys, hk] at he'
      cases he'
    | some e' =>
      have hitem := hitems k _ e' hk he'
      have hcopy := hitem
      cases hitem with
      | struct => exact ⟨_, hcopy⟩

theorem DeepItem.target_iff (h : DeepItem args st A B e e') : e'.target = none ↔ e.target = none := by
  cases h <;> simp [RpcTypeT.target]

/-- The copy of an object is one of the copies. -/
theorem DeepItem.target_mem (h : DeepItem args st A B e e') {q : Addr} (hq : e'.target = some q) :
    q ∈ B := by
  cases h with
  | sizedbuf _ hB => cases hq; exact hB
  | function _ hB => cases hq; exact hB
  | struct _ hB => cases hq; exact hB
  | _ => cases hq

end

/-! ## One insertion

The loop increments the count of an object itself before it calls the setter, which
counts the entry once more. -/

section
variable {E : Env} {args : ArgOrder} {st0 st st' : State} {S c : Addr} {s m : RpcStruct} {k : CStr}
  {e : RpcTypeT}

/-- The first entry counts its object once, a further one twice: an object without a record
is not counted by the increment. -/
theorem deepInsert_spec (h : WF st) (hc : st.struct? c = some m) (hk : m.map.lookup k = none)
    (hsz : e.Sized) (hnn : rpcIsPointer e.type = true → e.ptrValue ≠ 0)
    (htgt : ∀ p, e.target = some p → ∃ o, st.heap.lookup p = some o ∧ o.type = e.type) :
    ∃ st' e', Prod.fst <$> rpcStructSetInternal E (incrementElement st c k e) c k e = .ok st' ∧
      WF st' ∧ Inserted c k e m e' st st' ∧
      ∀ q r', e.target = some q → st'.tracker.lookup q = some r' →
        r'.refcount = ((st.tracker.lookup q).map fun r => r.refcount + 2).getD 1 := by
  obtain ⟨st', e', hok, hst', he', hstored, hins⟩ :=
    inserted_increment (E := E) h.stored hc hk hsz hnn
  have hcount : ∀ q r', e.target = some q → st'.tracker.lookup q = some r' →
      r'.refcount = ((st.tracker.lookup q).map fun r => r.refcount + 2).getD 1 := by
    intro q r' hq hr'
    rw [hst', tracker_setObj, lookup_trackElement hq, if_pos rfl] at hr'
    cases hr'
    rw [increment_refcount]
    simp only [incrementElement, hq, precIncrement]
    cases hr : st.tracker.lookup q with
    | none => simp [hr]
    | some r => simp [lookup_setPrec, increment_refcount]
  refine ⟨st', e', hok, ?_, hins, hcount⟩
  by_cases htr : ∀ p, e.target = some p → ∃ r, st.tracker.lookup p = some r
  · obtain ⟨st2, e2, hok2, hinv, -⟩ := incrementSet_spec (E := E) h.inv h.stored hc hk hsz hnn
      fun p hp => ⟨htr p hp, htgt p hp⟩
    rw [hok] at hok2
    cases hok2
    exact hinv.wf hstored
  · -- an object without a record is not counted by the loop itself
    rw [not_forall] at htr
    obtain ⟨p, hp⟩ := htr
    obtain ⟨hp, hnone⟩ := Classical.not_imp.1 hp
    have hr : st.tracker.lookup p = none := by
      cases hr : st.tracker.lookup p with
      | none => rfl
      | some r => exact absurd ⟨r, hr⟩ hnone
    have hsame : incrementElement st c k e = st := by
      simp only [incrementElement, hp, precIncrement, hr]
    have hinv := set_spec (E := E) h.inv hc hk htgt (fun q hq => surplus_untracked hq)
      fun q hq => absurd hq (Finset.notMem_empty q)
    rw [hsame] at hst' he'
    rw [he'] at hst'
    rw [← hst'] at hinv
    exact hinv.wf hstored

/-! ## The loop

Within one struct, `duptrack` maps each object met to its copy. It is exact for the keys
done, and injective, so that two keys of the copy hold one object if and only if the two
keys of the original do. It does not outlive the call: an object that two structs share is
copied once for each. -/

/-- The keys `done` of `S` were copied into `c`, the struct `m` now; `x` is the state and
`duptrack`. -/
structure Copying (args : ArgOrder) (st0 st : State) (S : Addr) (s : RpcStruct) (c : Addr)
    (done : List CStr) (x : State × Table Addr Addr) (m : RpcStruct) : Prop where
  grove : Grove st {c} x.1
  struct : x.1.struct? c = some m
  id : m.ID = s.ID
  free : ∀ k, k ∉ done → m.map.lookup k = none
  items : ∀ k ∈ done, ∀ e, s.map.lookup k = some e → ∃ e', m.map.lookup k = some e' ∧
    DeepItem args x.1 st0.live {a | st.New x.1 a ∧ a ≠ c} e e'
  dup : ∀ p q, x.2.lookup p = some q ↔ ∃ k ∈ done, st0.held S k = some p ∧ x.1.held c k = some q
  inj : ∀ p p' q, x.2.lookup p = some q → x.2.lookup p' = some q → p' = p

/-- What `element_copy` is, and how the state and `duptrack` are left. -/
inductive Made (args : ArgOrder) (st0 : State) (x : State × Table Addr Addr) (e : RpcTypeT) :
    State × Table Addr Addr → RpcTypeT → Prop
  | value {e'} : e.target = none → e.SameValue e' →
      (rpcIsPointer e'.type = true → e'.ptrValue ≠ 0) → Made args st0 x e x e'
  | again {p q e'} : e.target = some p → x.2.lookup p = some q → e'.target = some q →
      e'.type = e.type → Made args st0 x e x e'
  | new {p q st1 e'} : e.target = some p → x.2.lookup p = none → Grove x.1 {q} st1 →
      e'.target = some q → DeepItem args st1 st0.live {a | x.1.New st1 a} e e' →
      Made args st0 x e (st1, x.2.insert p q) e'

/-- What the recursive call owes, at any state that extends `st0`: a struct that `st0` had,
nested no deeper than `n`, is copied, and all that was allocated hangs from the copy. -/
def DeepCopies (E : Env) (args : ArgOrder) (st0 : State) (n : Nat) : Prop :=
  ∀ st S, Extends st0 st → WF st → (∃ s, st0.struct? S = some s) → DepthLE st0.Edge n S →
    ∃ st' c, rpcStructDeepCopy E args n st S = .ok (st', c) ∧ Grove st {c} st' ∧
      DeepItem args st' st0.live {a | st.New st' a} (.struct S) (.struct c)

/-- The three object types go through one piece of code, with a `make` each: the copy in
`duptrack` if there is one, else a new one that is put there. -/
theorem duplicate_made (make : State → Addr → Except Fault (State × Addr))
    (x : State × Table Addr Addr) {p : Addr} (mk : Addr → RpcTypeT) (he : e.target = some p)
    (hmk : ∀ q, (mk q).target = some q) (hty : ∀ q, (mk q).type = e.type)
    (hmake : ∃ st1 q, make x.1 p = .ok (st1, q) ∧ Grove x.1 {q} st1 ∧
      DeepItem args st1 st0.live {a | x.1.New st1 a} e (mk q)) :
    ∃ x1 q, duplicate make x p = .ok (x1, q) ∧ Made args st0 x e x1 (mk q) := by
  unfold duplicate
  cases hd : x.2.lookup p with
  | some q => exact ⟨x, q, rfl, .again he hd (hmk q) (hty q)⟩
  | none =>
    obtain ⟨st1, q, hok, hgrove, hitem⟩ := hmake
    exact ⟨(st1, x.2.insert p q), q, by simp only [hok, bind, Except.bind],
      .new he hd hgrove (hmk q) hitem⟩

theorem Grove.root_mem {q : Addr} (h : Grove st {q} st') : q ∈ {a | st.New st' a} := h.roots q rfl

/-- `element_copy`, for each type of element. -/
theorem deepCopyValue_made {n : Nat} (hrec : DeepCopies E args st0 n) {x : State × Table Addr Addr}
    (hext : Extends st0 x.1) (hwf : WF x.1)
    (hlive : ∀ p, e.target = some p → ∃ o, st0.heap.lookup p = some o ∧ o.type = e.type)
    (hdepth : ∀ p, e = .struct p → DepthLE st0.Edge n p)
    (hnn : rpcIsPointer e.type = true → e.ptrValue ≠ 0) :
    ∃ x1 e', deepCopyValue E args (rpcStructDeepCopy E args n) x e = .ok (x1, e') ∧
      Made args st0 x e x1 e' := by
  cases e with
  | string q t =>
    exact ⟨x, .string (E.malloc x.1) t, rfl, .value rfl rfl fun _ => malloc_ne_zero E x.1⟩
  | struct p =>
    obtain ⟨o, ho, hty⟩ := hlive p rfl
    obtain ⟨x1, q, hok, hmade⟩ := duplicate_made (rpcStructDeepCopy E args n) x .struct
      rfl (fun _ => rfl) (fun _ => rfl) (by
        cases o with
        | struct s => exact hrec x.1 p hext hwf ⟨s, struct?_eq_some.2 ho⟩ (hdepth p rfl)
        | _ => cases hty)
    exact ⟨x1, .struct q, by simp only [deepCopyValue, hok, bind, Except.bind], hmade⟩
  | sizedbuf p =>
    obtain ⟨o, ho, hty⟩ := hlive p rfl
    obtain ⟨x1, q, hok, hmade⟩ := duplicate_made (rpcSizedbufCopy E args) x .sizedbuf
      rfl (fun _ => rfl) (fun _ => rfl) (by
        cases o with
        | sizedbuf b =>
          obtain ⟨st1, q, hok, hgrove, hb⟩ := sizedbufCopy_grove E args hwf (hext.heap p _ ho)
          exact ⟨st1, q, hok, hgrove, .sizedbuf ⟨_, ho⟩ hgrove.root_mem
            (hgrove.ext.heap p _ (hext.heap p _ ho)) hb⟩
        | _ => cases hty)
    exact ⟨x1, .sizedbuf q, by simp only [deepCopyValue, hok, bind, Except.bind], hmade⟩
  | function p =>
    obtain ⟨o, ho, hty⟩ := hlive p rfl
    obtain ⟨x1, q, hok, hmade⟩ := duplicate_made (rpcFunctionCopy E) x .function
      rfl (fun _ => rfl) (fun _ => rfl) (by
        cases o with
        | function f =>
          obtain ⟨st1, q, hok, hgrove, hf⟩ := functionCopy_grove E hwf (hext.heap p _ ho)
          exact ⟨st1, q, hok, hgrove, .function ⟨_, ho⟩ hgrove.root_mem
            (hgrove.ext.heap p _ (hext.heap p _ ho)) hf⟩
        | _ => cases hty)
    exact ⟨x1, .function q, by simp only [deepCopyValue, hok, bind, Except.bind], hmade⟩
  | none => exact ⟨x, .none, rfl, .value rfl rfl hnn⟩
  | number raw => exact ⟨x, .number raw, rfl, .value rfl rfl hnn⟩
  | real raw => exact ⟨x, .real raw, rfl, .value rfl rfl hnn⟩
  | unknown p => exact ⟨x, .unknown p, rfl, .value rfl rfl hnn⟩

/-! ### One turn

A turn is `element_copy` and then the insertion. The four lemmas about `Made` are about
what comes of the turn in each of its cases (a plain value, an object met before, a new
one): that the insertion goes through (`ready`), that everything new hangs from the copy
(`grove`), that the new entry is a copy (`item`), that `duptrack` is exact again (`dup`). -/

theorem RpcTypeT.SameValue.sized {e e' : RpcTypeT} (h : e.SameValue e') (hs : e.Sized) : e'.Sized := by
  cases e <;> cases e' <;> cases h <;> exact hs

theorem RpcTypeT.SameValue.trans {e e' e2 : RpcTypeT} (h : e.SameValue e') (h' : e'.SameValue e2) :
    e.SameValue e2 := by
  cases e <;> cases e' <;> cases h <;> cases e2 <;> first | exact h' | cases h'

theorem RpcTypeT.sized_of_target {e : RpcTypeT} {p : Addr} (h : e.target = some p) : e.Sized := by
  cases e <;> cases h <;> trivial

theorem RpcTypeT.ptrValue_of_target {e : RpcTypeT} {p : Addr} (h : e.target = some p) :
    e.ptrValue = p := by
  cases e <;> cases h <;> rfl

/-- An element that refers to an object is its value. -/
theorem RpcTypeT.SameValue.eq_of_target {e e' : RpcTypeT} {p : Addr} (h : e.SameValue e')
    (ht : e.target = some p) : e' = e := by
  cases e <;> cases ht <;> cases h <;> rfl

/-- The copy of an object is live, and of its type. -/
theorem DeepItem.target_live {A B : Set Addr} {e' : RpcTypeT} {q : Addr}
    (h : DeepItem args st A B e e') (hq : e'.target = some q) :
    ∃ o, st.heap.lookup q = some o ∧ o.type = e'.type := by
  cases h with
  | sizedbuf _ _ _ ho => cases hq; exact ⟨_, ho, rfl⟩
  | function _ _ _ ho => cases hq; exact ⟨_, ho, rfl⟩
  | struct _ _ _ hm => cases hq; exact ⟨_, struct?_eq_some.1 hm, rfl⟩
  | _ => cases hq

section Turn
variable {done : List CStr} {x x1 : State × Table Addr Addr} {e' : RpcTypeT}

theorem Copying.wf (h : Copying args st0 st S s c done x m) : WF x.1 := h.grove.wf

/-- The copy in `duptrack` is that of the same element under an earlier key. -/
theorem Copying.known (h : Copying args st0 st S s c done x m) (hwf0 : WF st0)
    (hs : st0.struct? S = some s) (he : s.map.lookup k = some e) {p q : Addr}
    (hp : e.target = some p) (hd : x.2.lookup p = some q) :
    ∃ k0 e0, m.map.lookup k0 = some e0 ∧ e0.target = some q ∧
      DeepItem args x.1 st0.live {a | st.New x.1 a ∧ a ≠ c} e e0 := by
  obtain ⟨k0, hk0, hS, hc⟩ := (h.dup p q).1 hd
  obtain ⟨e1, he1, ht1⟩ := held_eq_some.1 hS
  rw [entry_of_struct hs] at he1
  obtain ⟨e0, he0, hitem⟩ := h.items k0 hk0 e1 he1
  have hsame : e1 = e := hwf0.inv.same_target ((entry_of_struct hs k).trans he)
    ((entry_of_struct hs k0).trans he1) hp ht1
  obtain ⟨e2, he2, ht2⟩ := held_eq_some.1 hc
  rw [entry_of_struct h.struct, he0] at he2
  cases he2
  exact ⟨k0, e0, he0, ht2, hsame ▸ hitem⟩

/-- The element is ready to be inserted. -/
theorem Made.ready (hm : Made args st0 x e x1 e') (h : Copying args st0 st S s c done x m)
    (hwf0 : WF st0) (hs : st0.struct? S = some s) (he : s.map.lookup k = some e) :
    WF x1.1 ∧ Extends x.1 x1.1 ∧ e'.Sized ∧ (rpcIsPointer e'.type = true → e'.ptrValue ≠ 0) ∧
      ∀ q, e'.target = some q → ∃ o, x1.1.heap.lookup q = some o ∧ o.type = e'.type := by
  have hsz : e.Sized := hwf0.stored.sized S k e (by rw [entry_of_struct hs, he])
  have hnonnull : ∀ {st1 : State} {q : Addr} {o : Obj}, WF st1 → e'.target = some q →
      st1.heap.lookup q = some o → e'.ptrValue ≠ 0 := by
    intro st1 q o hwf hq ho h0
    rw [RpcTypeT.ptrValue_of_target hq] at h0
    rw [h0, hwf.inv.null] at ho
    cases ho
  cases hm with
  | value ht hv hnn =>
    refine ⟨h.wf, .refl x.1, hv.sized hsz, hnn, fun q hq => ?_⟩
    rw [hv.target, ht] at hq
    cases hq
  | @again p q _ hp hd hq hty =>
    obtain ⟨k0, e0, -, ht0, hitem⟩ := h.known hwf0 hs he hp hd
    have heq : e' = e0 := RpcTypeT.eq_of_target ht0 hq (hty.trans hitem.type.symm)
    have hlive : ∀ q', e'.target = some q' → ∃ o, x.1.heap.lookup q' = some o ∧ o.type = e'.type := by
      intro q' hq'
      rw [heq] at hq' ⊢
      exact hitem.target_live hq'
    obtain ⟨o, ho, -⟩ := hlive q hq
    exact ⟨h.wf, .refl x.1, RpcTypeT.sized_of_target hq, fun _ => hnonnull h.wf hq ho, hlive⟩
  | @new p q st1 _ hp hd hgrove hq hitem =>
    obtain ⟨o, ho, -⟩ := hitem.target_live hq
    exact ⟨hgrove.wf, hgrove.ext, RpcTypeT.sized_of_target hq, fun _ => hnonnull hgrove.wf hq ho,
      fun q' hq' => hitem.target_live hq'⟩

/-- After the insertion everything hangs from `c` again. -/
theorem Made.grove (hm : Made args st0 x e x1 e') (h : Copying args st0 st S s c done x m)
    (hk : m.map.lookup k = none) {st2 : State} {e2 : RpcTypeT} (hwf2 : WF st2)
    (hc1 : x1.1.struct? c = some m) (hins : Inserted c k e' m e2 x1.1 st2)
    (hcount : ∀ q r', e'.target = some q → st2.tracker.lookup q = some r' →
      r'.refcount = ((x1.1.tracker.lookup q).map fun r => r.refcount + 2).getD 1) :
    Grove st {c} st2 := by
  cases hm with
  | value ht hv hnn =>
    refine h.grove.attach rfl subset_rfl hwf2 hc1 hk hins (fun r hr hr' => absurd hr hr')
      fun q hq => ?_
    rw [hv.target, ht] at hq
    cases hq
  | @again p q _ hp hd hq hty =>
    obtain ⟨k0, hk0, -, hheld⟩ := (h.dup p q).1 hd
    have hnew := h.grove.closed c k0 q (h.grove.roots c rfl) hheld
    refine h.grove.attach rfl subset_rfl hwf2 hc1 hk hins (fun r hr hr' => absurd hr hr')
      fun q' hq' => ?_
    rw [hq] at hq'
    cases hq'
    refine ⟨fun hqc => ?_, hnew, fun T k' hT => ?_, fun r' hr' => ?_⟩
    · rw [Set.mem_singleton_iff.1 hqc] at hheld
      exact h.grove.unheld c rfl c k0 hheld
    · obtain ⟨P, hP⟩ := h.grove.parent q hnew
      rw [hP T k' hT, ← hP c k0 hheld]
    · obtain ⟨r, -, hr, -⟩ := h.wf.inv.tracked_of_held (Set.notMem_empty q) hheld
      have h1 := h.grove.count q r hnew hr
      have h2 := hcount q r' hq hr'
      rw [hr] at h2
      simp only [Option.map_some, Option.getD_some] at h2
      omega
  | @new p q st1 _ hp hd hgrove hq hitem =>
    have hqnew := hgrove.roots q rfl
    have hqc : q ≠ c := by
      intro hqc
      rw [hqc] at hqnew
      obtain ⟨o, ho⟩ := (h.grove.roots c rfl).2
      rw [hqnew.1] at ho
      cases ho
    refine (h.grove.merge hgrove).attach rfl Set.subset_union_left hwf2 hc1 hk hins
      (fun r hr hr' => ?_) fun q' hq' => ?_
    · rcases hr with hr | hr
      · exact absurd hr hr'
      · rw [Set.mem_singleton_iff.1 hr]
        exact hq
    · rw [hq] at hq'
      cases hq'
      refine ⟨hqc, hqnew.later h.grove.ext, fun T k' hT => absurd hT (hgrove.unheld q rfl T k'),
        fun r' hr' => ?_⟩
      have hempty : st1.holders q = ∅ := by
        refine Finset.eq_empty_iff_forall_notMem.2 fun e he => ?_
        exact hgrove.unheld q rfl e.1 e.2 (mem_holders.1 he)
      have hnone : st1.tracker.lookup q = none := by
        cases hr : st1.tracker.lookup q with
        | none => rfl
        | some r =>
          have := hgrove.count q r hqnew hr
          rw [hempty, Finset.card_empty] at this
          omega
      have h2 := hcount q r' hq hr'
      simp only [hnone] at h2
      rw [hempty, Finset.card_empty, h2]
      rfl

/-- The new entry is the copy of the element. -/
theorem Made.item (hm : Made args st0 x e x1 e') (h : Copying args st0 st S s c done x m)
    (hwf0 : WF st0) (hext : Extends st0 st) (hs : st0.struct? S = some s)
    (he : s.map.lookup k = some e) {st2 : State} {e2 : RpcTypeT} (hc1 : x1.1.struct? c = some m)
    (hins : Inserted c k e' m e2 x1.1 st2) (hsome : ∀ a, st.New x1.1 a → st.New st2 a) :
    DeepItem args st2 st0.live {a | st.New st2 a ∧ a ≠ c} e e2 := by
  have hcdead : ∀ a ∈ st0.live, a ≠ c := by
    intro a ha hac
    rw [hac] at ha
    obtain ⟨o, ho⟩ := hext.live ha
    rw [(h.grove.roots c rfl).1] at ho
    cases ho
  have hold : ∀ a ∈ st0.live, ∀ o, x1.1.heap.lookup a = some o → st2.heap.lookup a = some o :=
    fun a ha o ho => (hins.heap a (hcdead a ha)).trans ho
  cases hm with
  | value ht hv hnn =>
    refine .of_value ht (fun hnone => ?_) ?_
    · have hsz := hwf0.stored.sized S k e (by rw [entry_of_struct hs, he])
      rw [hnone] at hsz
      exact hsz
    · exact hv.trans hins.value
  | @again p q _ hp hd hq hty =>
    obtain ⟨k0, e0, -, ht0, hitem⟩ := h.known hwf0 hs he hp hd
    have heq : e' = e0 := RpcTypeT.eq_of_target ht0 hq (hty.trans hitem.type.symm)
    rw [hins.value.eq_of_target hq, heq]
    exact hitem.later hold (fun a ha o ho => (hins.heap a ha.2).trans ho)
      fun a ha => ⟨hsome a ha.1, ha.2⟩
  | @new p q st1 _ hp hd hgrove hq hitem =>
    rw [hins.value.eq_of_target hq]
    have hne : ∀ a, x.1.New st1 a → a ≠ c := by
      intro a ha hac
      rw [hac] at ha
      obtain ⟨o, ho⟩ := (h.grove.roots c rfl).2
      rw [ha.1] at ho
      cases ho
    exact hitem.later hold (fun a ha o ho => (hins.heap a (hne a ha)).trans ho)
      fun a ha => ⟨hsome a (ha.later h.grove.ext), hne a ha⟩

/-- `duptrack` after the turn. -/
theorem Made.dup (hm : Made args st0 x e x1 e') (h : Copying args st0 st S s c done x m)
    (hs : st0.struct? S = some s) (he : s.map.lookup k = some e) (hk : k ∉ done)
    {st2 : State} {e2 : RpcTypeT} (hc1 : x1.1.struct? c = some m)
    (hins : Inserted c k e' m e2 x1.1 st2) :
    (∀ p q, x1.2.lookup p = some q ↔
      ∃ k' ∈ k :: done, st0.held S k' = some p ∧ st2.held c k' = some q) ∧
    ∀ p p' q, x1.2.lookup p = some q → x1.2.lookup p' = some q → p' = p := by
  have hSk : st0.held S k = e.target := by rw [held, entry_of_struct hs, he]; rfl
  have hck : st2.held c k = e'.target := by rw [hins.held hc1, if_pos ⟨rfl, rfl⟩]
  have hold : ∀ k' ∈ done, st2.held c k' = x.1.held c k' := by
    intro k' hk'
    rw [hins.held hc1, if_neg, held, entry_of_struct hc1, held, entry_of_struct h.struct]
    intro hkk
    exact hk (hkk.2 ▸ hk')
  -- the entries of the keys before
  have hsplit : ∀ p q, (∃ k' ∈ k :: done, st0.held S k' = some p ∧ st2.held c k' = some q) ↔
      (e.target = some p ∧ e'.target = some q) ∨ x.2.lookup p = some q := by
    intro p q
    rw [h.dup]
    constructor
    · intro hex
      obtain ⟨k', hk', hS, hc⟩ := hex
      rcases List.mem_cons.1 hk' with hk' | hk'
      · rw [hk', hSk] at hS
        rw [hk', hck] at hc
        exact .inl ⟨hS, hc⟩
      · rw [hold k' hk'] at hc
        exact .inr ⟨k', hk', hS, hc⟩
    · intro hex
      rcases hex with hex | hex
      · exact ⟨k, List.mem_cons_self, hSk.trans hex.1, hck.trans hex.2⟩
      · obtain ⟨k', hk', hS, hc⟩ := hex
        exact ⟨k', List.mem_cons_of_mem _ hk', hS, (hold k' hk').trans hc⟩
  cases hm with
  | value ht hv hnn =>
    refine ⟨fun p q => ?_, h.inj⟩
    rw [hsplit, ht]
    simp
  | @again p q _ hp hd hq hty =>
    refine ⟨fun p' q' => ?_, h.inj⟩
    rw [hsplit, hp, hq, Option.some.injEq, Option.some.injEq, iff_or_self]
    intro heq
    rw [← heq.1, ← heq.2]
    exact hd
  | @new p q st1 _ hp hd hgrove hq hitem =>
    -- the new copy is at an address that no entry can have held before
    have hfresh : ∀ p', x.2.lookup p' ≠ some q := by
      intro p' hp'
      obtain ⟨k', -, -, hc⟩ := (h.dup p' q).1 hp'
      obtain ⟨o, ho⟩ := h.wf.inv.held_live hc
      rw [(hgrove.roots q rfl).1] at ho
      cases ho
    refine ⟨fun p' q' => ?_, fun p1 p2 q' h1 h2 => ?_⟩
    · rw [hsplit, hp, hq, Option.some.injEq, Option.some.injEq, Table.lookup_insert_if]
      split
      · rename_i hpp
        subst hpp
        simp [hd]
      · rename_i hpp
        simp [Ne.symm hpp]
    · rw [Table.lookup_insert_if] at h1 h2
      split at h1
      · rename_i hp1
        split at h2
        · rename_i hp2
          exact hp2.trans hp1.symm
        · cases h1
          exact absurd h2 (hfresh p2)
      · split at h2
        · cases h2
          exact absurd h1 (hfresh p1)
        · exact h.inj p1 p2 q' h1 h2

/-- One turn of the loop. -/
theorem Copying.step {n : Nat} (h : Copying args st0 st S s c done x m)
    (hrec : DeepCopies E args st0 n) (hwf0 : WF st0) (hext : Extends st0 st)
    (hs : st0.struct? S = some s) (hdepth : ∀ p, e = .struct p → DepthLE st0.Edge n p)
    (hk : k ∉ done) (he : s.map.lookup k = some e) :
    ∃ x2 m2, deepCopyElement E args (rpcStructDeepCopy E args n) s c x k = .ok x2 ∧
      Copying args st0 st S s c (k :: done) x2 m2 := by
  have hSk : st0.entry S k = some e := by rw [entry_of_struct hs, he]
  obtain ⟨x1, e', hok1, hmade⟩ := deepCopyValue_made hrec (x := x)
    (hext.trans h.grove.ext) h.wf
    (fun p hp => hwf0.inv.typed S k e p hSk hp (Set.notMem_empty p) (Finset.notMem_empty _))
    hdepth (hwf0.stored.nonnull S k e hSk)
  obtain ⟨hwf1, hext1, hsz, hnn, htgt⟩ := hmade.ready h hwf0 hs he
  have hc1 := hext1.struct h.struct
  have hfree := h.free k hk
  obtain ⟨st2, e2, hok2, hwf2, hins, hcount⟩ := deepInsert_spec (E := E) hwf1 hc1 hfree hsz hnn htgt
  have hgrove := hmade.grove h hfree hwf2 hc1 hins hcount
  have hsome : ∀ a, st.New x1.1 a → st.New st2 a := fun a ha => (hins.new_iff hc1 a).2 ha
  obtain ⟨hdup, hinj⟩ := hmade.dup h hs he hk hc1 hins
  refine ⟨(st2, x1.2), { m with map := m.map.insert k e2 },
    by simp only [deepCopyElement, he, hok1, hok2, bind, Except.bind],
    hgrove, hins.struct, h.id, fun k' hk' => ?_, fun k' hk' e0 he0 => ?_, hdup, hinj⟩
  · rw [List.mem_cons, not_or] at hk'
    rw [Table.lookup_insert_if, if_neg hk'.1]
    exact h.free k' hk'.2
  · rw [Table.lookup_insert_if]
    split
    · rename_i hkk
      rw [hkk, he] at he0
      cases he0
      exact ⟨e2, rfl, hmade.item h hwf0 hext hs he hc1 hins hsome⟩
    · rename_i hkk
      obtain ⟨e1, he1, hitem⟩ := h.items k' ((List.mem_cons.1 hk').resolve_left hkk) e0 he0
      have hstay : ∀ a, a ≠ c → ∀ o, x.1.heap.lookup a = some o → st2.heap.lookup a = some o :=
        fun a ha o ho => (hins.heap a ha).trans (hext1.heap a o ho)
      refine ⟨e1, he1, hitem.later (fun a ha o ho => hstay a (fun hac => ?_) o ho)
        (fun a ha o ho => hstay a ha.2 o ho) fun a ha => ⟨hsome a (ha.1.of_later hext1), ha.2⟩⟩
      obtain ⟨o0, ho0⟩ := hext.live ha
      rw [hac, (h.grove.roots c rfl).1] at ho0
      cases ho0

/-- Keys share an object in the copy as they do in the original. -/
theorem Copying.shared (h : Copying args st0 st S s c done x m) (hs : st0.struct? S = some s)
    (hall : ∀ k, k ∈ done ↔ ∃ e, s.map.lookup k = some e) (k k' : CStr) :
    x.1.held c k = x.1.held c k' ↔ st0.held S k = st0.held S k' := by
  have hnone : ∀ k, x.1.held c k = none ↔ st0.held S k = none := by
    intro k
    rw [held, entry_of_struct h.struct, held, entry_of_struct hs]
    cases he : s.map.lookup k with
    | none =>
      have hk : k ∉ done := fun hk => by
        obtain ⟨e, he'⟩ := (hall k).1 hk
        rw [he] at he'
        cases he'
      rw [h.free k hk]
    | some e =>
      obtain ⟨e', he', hitem⟩ := h.items k ((hall k).2 ⟨e, he⟩) e he
      rw [he']
      exact hitem.target_iff
  have hdup : ∀ k p q, st0.held S k = some p → x.1.held c k = some q → x.2.lookup p = some q := by
    intro k p q hp hq
    obtain ⟨e, he, -⟩ := held_eq_some.1 hp
    rw [entry_of_struct hs] at he
    exact (h.dup p q).2 ⟨k, (hall k).2 ⟨e, he⟩, hp, hq⟩
  cases hp : st0.held S k with
  | none =>
    rw [(hnone k).2 hp, eq_comm, hnone, eq_comm]
  | some p =>
    cases hq : x.1.held c k with
    | none =>
      rw [hnone, hp] at hq
      cases hq
    | some q =>
      have hpq := hdup k p q hp hq
      constructor
      · intro hq'
        cases hp' : st0.held S k' with
        | none =>
          rw [(hnone k').2 hp'] at hq'
          cases hq'
        | some p' => rw [h.inj p p' q hpq (hdup k' p' q hp' hq'.symm)]
      · intro hp'
        cases hq' : x.1.held c k' with
        | none =>
          rw [hnone, ← hp'] at hq'
          cases hq'
        | some q' =>
          have hpq' := hdup k' p q' hp'.symm hq'
          rw [hpq] at hpq'
          exact hpq'

end Turn

/-! ## The whole copy -/

/-- The struct a call starts with has the ID of the original. -/
theorem deepCopy_start (hs : st.struct? S = some s) (hname : s.Named) :
    rpcStructIdSet (rpcStructCreate E st).1 (E.malloc st)
      (rpcStructIdGet (rpcStructCreate E st).1 S) =
        .ok (st.setObj (E.malloc st) (.struct ⟨∅, s.ID, 0⟩)) := by
  obtain ⟨id, hid, hlen, hzero⟩ := hname
  have hne : S ≠ E.malloc st := by
    intro hS
    rw [struct?_eq_some, hS, malloc_dead] at hs
    cases hs
  have hget : rpcStructIdGet (rpcStructCreate E st).1 S = id := by
    have hs1 : (rpcStructCreate E st).1.struct? S = some s := by
      rw [rpcStructCreate, struct?_setObj_struct, if_neg hne, hs]
    rw [rpcStructIdGet, hs1, Option.map_some, Option.getD_some, hid, takeWhile_string hzero]
  have hnew : (rpcStructCreate E st).1.struct? (E.malloc st) =
      some ⟨∅, E.random st ++ [0], 0⟩ := by
    rw [rpcStructCreate, struct?_setObj_struct, if_pos rfl]
  rw [hget, rpcStructIdSet, hnew]
  simp only
  rw [if_neg]
  · have hdrop : id ++ (E.random st ++ [0]).drop id.length = s.ID := by
      rw [hlen, ← E.random_length st, List.drop_left, hid]
    rw [hdrop, rpcStructCreate]
    simp only [State.setObj, AList.insert_insert]
  · rw [List.length_append, E.random_length, hlen]
    decide

/-- The loop starts with an empty struct that has the ID of the original. -/
theorem Copying.start (E : Env) (args : ArgOrder) (hwf : WF st) (hs : st.struct? S = some s) :
    Copying args st0 st S s (E.malloc st) []
      (st.setObj (E.malloc st) (.struct ⟨∅, s.ID, 0⟩), ∅) ⟨∅, s.ID, 0⟩ :=
  ⟨.create E hwf fun s' hs' => by
      cases hs'
      exact ⟨hwf.stored.idSize S s hs, rfl⟩,
    by rw [struct?_setObj_struct, if_pos rfl], rfl, fun _ _ => rfl, nofun, fun p q => by simp, nofun⟩

/-- One more level. -/
theorem deepCopy_step {n : Nat} (hrec : DeepCopies E args st0 n) (hwf0 : WF st0) (hnamed : st0.Named) :
    DeepCopies E args st0 (n + 1) := by
  intro st S hext hwf hS hdeep
  obtain ⟨s, hs0⟩ := hS
  have hs := hext.struct hs0
  obtain ⟨hdepth⟩ := hdeep
  have hstart := deepCopy_start (E := E) hs (hnamed S s hs0)
  set c := E.malloc st
  set st2 := st.setObj c (.struct ⟨∅, s.ID, 0⟩) with hst2
  have hcopying : Copying args st0 st S s c [] (st2, ∅) ⟨∅, s.ID, 0⟩ := .start E args hwf hs
  have hnd : (E.order st2 S s.map.keys).Nodup := (E.order_perm ..).nodup_iff.2 s.map.keys_nodup
  have hkeys : ∀ k, k ∈ E.order st2 S s.map.keys ↔ ∃ e, s.map.lookup k = some e := fun k => by
    rw [(E.order_perm ..).mem_iff, Table.mem_keys_iff]
  -- every key once, in whatever order the table is walked
  obtain ⟨x, hloop, m, hx⟩ := foldlM_inv_nodup
    (f := deepCopyElement E args (rpcStructDeepCopy E args n) s c)
    (fun done x => ∃ m, Copying args st0 st S s c done x m) (E.order st2 S s.map.keys) [] (st2, ∅)
    hnd (fun _ _ => List.not_mem_nil) ⟨_, hcopying⟩ (fun done x k hk hnew hI => by
      obtain ⟨m, hx⟩ := hI
      obtain ⟨e, he⟩ := (hkeys k).1 hk
      obtain ⟨x2, m2, hok, hx2⟩ := hx.step hrec hwf0 hext hs0
        (fun p hp => hdepth p ⟨k, by rw [entry_of_struct hs0, he, hp]⟩) hnew he
      exact ⟨x2, hok, m2, hx2⟩)
  rw [List.append_nil] at hx
  have hall : ∀ k, k ∈ (E.order st2 S s.map.keys).reverse ↔ ∃ e, s.map.lookup k = some e :=
    fun k => List.mem_reverse.trans (hkeys k)
  set st4 := x.1.setObj c (.struct { m with copyof := S }) with hst4
  have hgrove4 : Grove st {c} st4 := hx.grove.update hx.struct (hx.grove.roots c rfl) _ rfl
    (hx.wf.stored.idSize c m hx.struct)
  refine ⟨st4, c, ?_, hgrove4, ?_⟩
  · simp only [rpcStructDeepCopy, hs]
    rw [show (rpcStructCreate E st) = ((rpcStructCreate E st).1, c) from rfl]
    simp only [hstart, hloop, setCopyof, hx.struct, bind, Except.bind]
    rfl
  · have hstay : ∀ a, a ≠ c → ∀ o, x.1.heap.lookup a = some o → st4.heap.lookup a = some o :=
      fun a ha o ho => by rw [hst4, lookup_setObj, if_neg ha, ho]
    have hSc : S ≠ c := by
      intro hc
      have hdead := malloc_dead E st
      rw [show E.malloc st = S from hc.symm, struct?_eq_some.1 hs] at hdead
      cases hdead
    have hmap : ({ m with copyof := S } : RpcStruct).map = m.map := rfl
    have hentry4 := entry_update hx.struct hmap
    refine .struct (m := { m with copyof := S }) ⟨_, struct?_eq_some.1 hs0⟩ (hgrove4.roots c rfl) (hgrove4.ext.struct hs)
      (by rw [hst4, struct?_setObj_struct, if_pos rfl]) hx.id rfl (fun k => ?_) (fun k k' => ?_)
      fun k e e' he he' => ?_
    · cases he : s.map.lookup k with
      | none => simp [hx.free k fun hk => by
          obtain ⟨e, he'⟩ := (hall k).1 hk
          rw [he] at he'
          cases he']
      | some e =>
        obtain ⟨e', he', -⟩ := hx.items k ((hall k).2 ⟨e, he⟩) e he
        simp [he']
    · have hc4 : ∀ k, st4.held c k = x.1.held c k := fun k => by
        rw [held, hst4, hentry4, held]
      have hS4 : ∀ k, st4.held S k = st0.held S k := fun k => by
        rw [hgrove4.ext.held ⟨_, struct?_eq_some.1 hs⟩, hext.held ⟨_, struct?_eq_some.1 hs0⟩]
      rw [hc4, hc4, hS4, hS4]
      exact hx.shared hs0 hall k k'
    · obtain ⟨e1, he1, hitem⟩ := hx.items k ((hall k).2 ⟨e, he⟩) e he
      have heq : e1 = e' := Option.some.inj (he1.symm.trans he')
      rw [← heq]
      refine hitem.later (fun a ha => hstay a fun hac => ?_) (fun a ha => hstay a ha.2)
        fun a ha => ⟨ha.1.1, ?_⟩
      · obtain ⟨o, ho⟩ := hext.live ha
        rw [hac, (hgrove4.roots c rfl).1] at ho
        cases ho
      · obtain ⟨o, ho⟩ := ha.1.2
        exact ⟨o, hstay a ha.2 o ho⟩

/-- `rpc_struct_deep_copy` on a struct whose nesting is bounded. -/
theorem deepCopy_spec (hwf0 : WF st0) (hnamed : st0.Named) (n : Nat) : DeepCopies E args st0 n := by
  induction n with
  | zero =>
    intro st S _ _ _ hdeep
    cases hdeep
  | succ n ih => exact deepCopy_step ih hwf0 hnamed

end

end FfiRpc
