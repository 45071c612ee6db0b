import FfiRpc.Store.Reach

/-!
# `rpc_struct_deep_copy`

The copy loop copies the object of an entry unless an earlier key of the same struct
holds it (`duptrack`), counts it itself if it is tracked by then, and inserts it, which
counts it as well.

`Grove st R st'` is what such copying leaves at any point: everything allocated since `st`
hangs from the roots `R`, in one struct each, and an object under `n` keys has `2 * n - 1`
references. It is built by `create`, `merge` and `attach`.
-/
namespace FfiRpc

open State

/-- The order in which the two arguments of the call in `rpc_sizedbuf_copy` are
evaluated, which C leaves open. -/
inductive ArgOrder where
  | getbufFirst | lengthFirst
  deriving DecidableEq

/-- The bytes `rpc_sizedbuf_create` is asked for: `len` is still 0 if it is read first. -/
def ArgOrder.bytes (buf : List UInt8) : ArgOrder → List UInt8
  | .getbufFirst => buf
  | .lengthFirst => []

section Code
variable (E : Env) (args : ArgOrder)

/-- mirrors src/rpc_sizedbuf.c:53-56 (`rpc_sizedbuf_copy`) -/
def rpcSizedbufCopy (st : State) (szbuf : Addr) : Except Fault (State × Addr) :=
  match st.heap.lookup szbuf with
  | some (.sizedbuf b) => .ok (rpcSizedbufCreate E st (args.bytes b.buf))
  | _ => .error (.useAfterFree szbuf)

/-- mirrors src/rpc_function.c:72-80 (`rpc_function_copy`) -/
def rpcFunctionCopy (st : State) (fn : Addr) : Except Fault (State × Addr) :=
  match st.heap.lookup fn with
  | some (.function f) => do
    let (st1, new) := rpcFunctionCreate E st
    let st2 ← rpcFunctionSetFnptr st1 new f.fnptr
    let st3 ← rpcFunctionSetReturnType st2 new f.returnType
    let st4 ← rpcFunctionSetPrototype st3 new (f.prototype.getD [])
    .ok (st4, new)
  | _ => .error (.useAfterFree fn)

/-- The copy of an object, from `duptrack` if an earlier key holds it.
mirrors src/rpc_struct.c:635-640, 645-650, 655-660 -/
def duplicate (make : State → Addr → Except Fault (State × Addr)) (x : State × Table Addr Addr)
    (old : Addr) : Except Fault ((State × Table Addr Addr) × Addr) :=
  match x.2.lookup old with
  | some isCopy => .ok (x, isCopy)
  | none => do
    let (st1, new) ← make x.1 old
    .ok ((st1, x.2.insert old new), new)

/-- `element_copy`. The block of a string's copy is not the one the entry gets, which
`rpc_struct_set_internal` duplicates once more.
mirrors src/rpc_struct.c:626-665; `deepCopy` is the recursive call -/
def deepCopyValue (deepCopy : State → Addr → Except Fault (State × Addr))
    (x : State × Table Addr Addr) : RpcTypeT → Except Fault ((State × Table Addr Addr) × RpcTypeT)
  | .string _ text => .ok (x, .string (E.malloc x.1) text)
  | .struct p => do
    let (x1, new) ← duplicate deepCopy x p
    .ok (x1, .struct new)
  | .sizedbuf p => do
    let (x1, new) ← duplicate (rpcSizedbufCopy E args) x p
    .ok (x1, .sizedbuf new)
  | .function p => do
    let (x1, new) ← duplicate (rpcFunctionCopy E) x p
    .ok (x1, .function new)
  | element => .ok (x, element)

/-- One turn of the copy loop over the map `s` of the original.
mirrors src/rpc_struct.c:625-676 -/
def deepCopyElement (deepCopy : State → Addr → Except Fault (State × Addr)) (s : RpcStruct)
    (copy : Addr) (x : State × Table Addr Addr) (key : CStr) :
    Except Fault (State × Table Addr Addr) :=
  match s.map.lookup key with
  | none => .ok x
  | some element => do
    let (x1, elementCopy) ← deepCopyValue E args deepCopy x element
    let st2 ← Prod.fst <$>
      rpcStructSetInternal E (incrementElement x1.1 copy key elementCopy) copy key elementCopy
    .ok (st2, x1.2)

/-- mirrors src/rpc_struct.c:614-681 (`rpc_struct_deep_copy`); the first argument bounds
the nesting of calls. -/
def rpcStructDeepCopy : Nat → State → Addr → Except Fault (State × Addr)
  | 0, _, _ => .error .outOfFuel
  | n + 1, st, original =>
    match st.struct? original with
    | none => .error (.useAfterFree original)
    | some s => do
      let (st1, copy) := rpcStructCreate E st
      let st2 ← rpcStructIdSet st1 copy (rpcStructIdGet st1 original)
      let x ← (E.order st2 original s.map.keys).foldlM
        (deepCopyElement E args (rpcStructDeepCopy n) s copy) (st2, ∅)
      let st4 ← setCopyof x.1 copy original
      .ok (st4, copy)

end Code

/-! ## What copying leaves -/

/-- Everything allocated since `st` hangs from the roots `R`. -/
structure Grove (st : State) (R : Set Addr) (st' : State) : Prop where
  wf : WF st'
  ext : Extends st st'
  roots : ∀ r ∈ R, st.New st' r
  unheld : ∀ r ∈ R, ∀ S k, st'.held S k ≠ some r
  hangs : ∀ a, st.New st' a → ∃ r ∈ R, st'.Hangs r a
  closed : ∀ S k p, st.New st' S → st'.held S k = some p → st.New st' p
  parent : ∀ a, st.New st' a → ∃ T, ∀ S k, st'.held S k = some a → S = T
  count : ∀ a r, st.New st' a → st'.tracker.lookup a = some r →
    r.refcount + 1 = 2 * (st'.holders a).card
  blocks : ∀ S k a t, st.New st' S → st'.entry S k = some (.string a t) → ¬ st.InUse a

section Grove
variable {E : Env} {R R' : Set Addr} {st st1 st' : State}

/-- An insertion that touches new objects only. -/
theorem Extends.trans_update (h : Extends st st1) {c : Addr} {k : CStr} {e e' : RpcTypeT}
    {m : RpcStruct} (hc : st.heap.lookup c = none) (hi : Inserted c k e m e' st1 st')
    (hq : ∀ q, e.target = some q → st.heap.lookup q = none) : Extends st st' := by
  refine ⟨fun a o ho => ?_, fun a ha => ?_⟩
  · rw [hi.heap a, h.heap a o ho]
    intro hac
    rw [hac, hc] at ho
    cases ho
  · rw [hi.other a, h.tracker a ha]
    intro hta
    obtain ⟨o, ho⟩ := ha
    rw [hq a hta] at ho
    cases ho

/-- Only new structs hold new objects. -/
theorem Grove.holder (h : Grove st R st') (hwf : WF st) {S a : Addr} {k : CStr}
    (ha : st.New st' a) (hh : st'.held S k = some a) : st.New st' S := by
  obtain ⟨o, ho⟩ := live_of_held hh
  refine ⟨?_, o, ho⟩
  cases hS : st.heap.lookup S with
  | none => rfl
  | some s =>
    rw [h.ext.held ⟨s, hS⟩] at hh
    obtain ⟨x, hx⟩ := hwf.inv.held_live hh
    rw [ha.1] at hx
    cases hx

/-- A new object that holds nothing. -/
theorem Grove.create (E : Env) (h : WF st) {o : Obj}
    (ho : ∀ s, o = .struct s → s.ID.length = 65 ∧ s.map = ∅) :
    Grove st {E.malloc st} (st.setObj (E.malloc st) o) := by
  obtain ⟨hst, hinv⟩ := create_step E h.inv h.stored ho
  have hnew : ∀ a, st.New (st.setObj (E.malloc st) o) a ↔ a = E.malloc st := by
    intro a
    constructor
    · intro ha
      obtain ⟨hnone, x, hx⟩ := ha
      by_contra hne
      rw [lookup_setObj, if_neg hne, hnone] at hx
      cases hx
    · intro ha
      subst ha
      exact ⟨malloc_dead E st, o, by rw [lookup_setObj, if_pos rfl]⟩
  have hempty : ∀ k, (st.setObj (E.malloc st) o).entry (E.malloc st) k = none :=
    create_none E fun s hs => (ho s hs).2
  have hother : ∀ S, S ≠ E.malloc st → ∀ k, (st.setObj (E.malloc st) o).entry S k = st.entry S k :=
    fun S hS k => entry_congr (by rw [lookup_setObj, if_neg hS]) k
  have hunheld : ∀ S k, (st.setObj (E.malloc st) o).held S k ≠ some (E.malloc st) := by
    intro S k hh
    by_cases hS : S = E.malloc st
    · rw [hS, held, hempty] at hh
      cases hh
    · rw [held, hother S hS, ← held] at hh
      obtain ⟨x, hx⟩ := h.inv.held_live hh
      rw [malloc_dead] at hx
      cases hx
  refine ⟨hinv.wf hst, ⟨fun a x hx => ?_, fun _ _ => rfl⟩, fun r hr => (hnew r).2 hr, fun r hr => ?_,
    fun a ha => ⟨_, rfl, (hnew a).1 ha ▸ .refl⟩, fun S k p hS hp => ?_, fun a ha => ?_,
    fun a r ha hr => ?_, fun S k a t hS he => ?_⟩
  · rw [lookup_setObj, if_neg]
    · exact hx
    · intro ha
      rw [ha, malloc_dead] at hx
      cases hx
  · rw [Set.mem_singleton_iff.1 hr]
    exact hunheld
  · rw [(hnew S).1 hS, held, hempty] at hp
    cases hp
  · refine ⟨0, fun S k hh => ?_⟩
    rw [(hnew a).1 ha] at hh
    exact absurd hh (hunheld S k)
  · obtain ⟨-, x, hx, -⟩ := h.inv.tracked a r hr
    rw [ha.1] at hx
    cases hx
  · rw [(hnew S).1 hS, hempty] at he
    cases he

/-- Copying in two stretches. -/
theorem Grove.merge (h : Grove st R st1) (h' : Grove st1 R' st') : Grove st (R ∪ R') st' := by
  have hlive : ∀ a, st.New st1 a → a ∈ st1.live := fun a ha => ha.2
  -- what is new in the second stretch holds nothing of the first
  have hheld : ∀ S k a, a ∈ st1.live → st'.held S k = some a → S ∈ st1.live := by
    intro S k a ha hh
    obtain ⟨o, ho⟩ := live_of_held hh
    cases hS : st1.heap.lookup S with
    | some x => exact ⟨x, hS⟩
    | none =>
      obtain ⟨x, hx⟩ := ha
      have hnone := (h'.closed S k a ⟨hS, o, ho⟩ hh).1
      rw [hx] at hnone
      cases hnone
  have hsame : ∀ S k a, a ∈ st1.live → (st'.held S k = some a ↔ st1.held S k = some a) := by
    intro S k a ha
    constructor
    · intro hh
      rwa [h'.ext.held (hheld S k a ha hh)] at hh
    · intro hh
      rwa [h'.ext.held (live_of_held hh)]
  refine ⟨h'.wf, h.ext.trans h'.ext, fun r hr => ?_, fun r hr S k hh => ?_, fun a ha => ?_,
    fun S k p hS hp => ?_, fun a ha => ?_, fun a r ha hr => ?_, fun S k a t hS he => ?_⟩
  · rcases hr with hr | hr
    · exact (h.roots r hr).of_later h'.ext
    · exact (h'.roots r hr).later h.ext
  · rcases hr with hr | hr
    · exact h.unheld r hr S k ((hsame S k r (hlive r (h.roots r hr))).1 hh)
    · exact h'.unheld r hr S k hh
  · rcases ha.split st1 with ha | ha
    · obtain ⟨r, hr, hb⟩ := h.hangs a ha
      exact ⟨r, .inl hr, h'.ext.hangs_later hb⟩
    · obtain ⟨r, hr, hb⟩ := h'.hangs a ha
      exact ⟨r, .inr hr, hb⟩
  · rcases hS.split st1 with hS | hS
    · rw [h'.ext.held (hlive S hS)] at hp
      exact (h.closed S k p hS hp).of_later h'.ext
    · exact (h'.closed S k p hS hp).later h.ext
  · rcases ha.split st1 with ha | ha
    · obtain ⟨T, hT⟩ := h.parent a ha
      exact ⟨T, fun S k hh => hT S k ((hsame S k a (hlive a ha)).1 hh)⟩
    · exact h'.parent a ha
  · rcases ha.split st1 with ha | ha
    · have hhold : st'.holders a = st1.holders a := by
        ext ⟨S, k⟩
        rw [mem_holders, mem_holders, hsame S k a (hlive a ha)]
      rw [h'.ext.tracker a (hlive a ha)] at hr
      rw [hhold]
      exact h.count a r ha hr
    · exact h'.count a r ha hr
  · rcases hS.split st1 with hS | hS
    · rw [h'.ext.entry (hlive S hS)] at he
      exact h.blocks S k a t hS he
    · exact fun hin => h'.blocks S k a t hS he (h.ext.inUse hin)

/-! ### Insertion -/

section Insert
variable {c : Addr} {k : CStr} {e e' : RpcTypeT} {m : RpcStruct}

theorem Inserted.entry (h : Inserted c k e m e' st st') (hc : st.struct? c = some m) (S : Addr)
    (k' : CStr) : st'.entry S k' = if S = c ∧ k' = k then some e' else st.entry S k' := by
  by_cases hS : S = c
  · rw [hS, entry_of_struct h.struct, entry_of_struct hc, Table.lookup_insert_if]
    simp
  · rw [entry_congr (h.heap S hS), if_neg fun hc => hS hc.1]

theorem Inserted.held (h : Inserted c k e m e' st st') (hc : st.struct? c = some m) (S : Addr)
    (k' : CStr) : st'.held S k' = if S = c ∧ k' = k then e.target else st.held S k' := by
  rw [State.held, h.entry hc]
  split
  · exact h.value.target
  · rfl

theorem Inserted.new_iff (h : Inserted c k e m e' st1 st') (hc : st1.struct? c = some m) (a : Addr) :
    st.New st' a ↔ st.New st1 a := by
  unfold State.New
  by_cases ha : a = c
  · rw [ha, struct?_eq_some.1 hc, struct?_eq_some.1 h.struct]
    simp
  · rw [h.heap a ha]

/-- The roots that stay are those the element does not refer to. -/
theorem Grove.attach (h : Grove st R st1) (hcR : c ∈ R') (hR' : R' ⊆ R) (hwf : WF st')
    (hc : st1.struct? c = some m) (hk : m.map.lookup k = none) (hi : Inserted c k e m e' st1 st')
    (hroots : ∀ r ∈ R, r ∉ R' → e.target = some r)
    (htarget : ∀ q, e.target = some q → q ∉ R' ∧ st.New st1 q ∧
      (∀ S k', st1.held S k' = some q → S = c) ∧
      ∀ r, st'.tracker.lookup q = some r → r.refcount + 1 = 2 * ((st1.holders q).card + 1)) :
    Grove st R' st' := by
  have hcnew := h.roots c (hR' hcR)
  have hc0 : st.heap.lookup c = none := hcnew.1
  have hnew : ∀ a, st.New st' a ↔ st.New st1 a := fun a => hi.new_iff hc a
  have hheld := hi.held hc
  have hlink : ∀ a b, st1.Hangs a b → st'.Hangs a b := by
    intro a b hb
    refine Relation.ReflTransGen.mono (fun a b hl => ?_) _ _ hb
    obtain ⟨k', hk'⟩ := hl
    refine ⟨k', ?_⟩
    rw [hheld, if_neg]
    · exact hk'
    · intro hSk
      rw [hSk.1, hSk.2, held, entry_of_struct hc, hk] at hk'
      cases hk'
  refine ⟨hwf, h.ext.trans_update hc0 hi fun q hq => (htarget q hq).2.1.1,
    fun r hr => (hnew r).2 (h.roots r (hR' hr)), fun r hr S k' hh => ?_, fun a ha => ?_,
    fun S k' p hS hp => ?_, fun a ha => ?_, fun a r ha hr => ?_, fun S k' a t hS he => ?_⟩
  · rw [hheld] at hh
    split at hh
    · exact (htarget r hh).1 hr
    · exact h.unheld r (hR' hr) S k' hh
  · obtain ⟨r, hr, hb⟩ := h.hangs a ((hnew a).1 ha)
    by_cases hr' : r ∈ R'
    · exact ⟨r, hr', hlink r a hb⟩
    · -- the root hangs from `c` now
      refine ⟨c, hcR, .head ⟨k, ?_⟩ (hlink r a hb)⟩
      rw [hheld, if_pos ⟨rfl, rfl⟩]
      exact hroots r hr hr'
  · rw [hnew] at hS ⊢
    rw [hheld] at hp
    split at hp
    · exact (htarget p hp).2.1
    · exact h.closed S k' p hS hp
  · by_cases hq : e.target = some a
    · refine ⟨c, fun S k' hh => ?_⟩
      rw [hheld] at hh
      split at hh
      · rename_i hSk
        exact hSk.1
      · exact (htarget a hq).2.2.1 S k' hh
    · obtain ⟨T, hT⟩ := h.parent a ((hnew a).1 ha)
      refine ⟨T, fun S k' hh => hT S k' ?_⟩
      rw [hheld] at hh
      split at hh
      · exact absurd hh hq
      · exact hh
  · by_cases hq : e.target = some a
    · have hhold : st'.holders a = insert (c, k) (st1.holders a) := by
        ext ⟨S, k'⟩
        rw [mem_holders, hheld, Finset.mem_insert, mem_holders, Prod.mk.injEq]
        split
        · rename_i hSk
          simp [hq, hSk]
        · rename_i hSk
          simp [hSk]
      have hfree : (c, k) ∉ st1.holders a := by
        rw [mem_holders, held, entry_of_struct hc, hk]
        intro hh
        cases hh
      rw [hhold, Finset.card_insert_of_notMem hfree]
      exact (htarget a hq).2.2.2 r hr
    · have hhold : st'.holders a = st1.holders a := by
        ext ⟨S, k'⟩
        rw [mem_holders, hheld, mem_holders]
        split
        · rename_i hSk
          rw [hSk.1, hSk.2, held, entry_of_struct hc, hk]
          exact iff_of_false hq fun hh => by cases hh
        · exact Iff.rfl
      rw [hhold]
      rw [hi.other a hq] at hr
      exact h.count a r ((hnew a).1 ha) hr
  · rw [hi.entry hc] at he
    split at he
    · exact fun hin => hi.block a t (Option.some.inj he) (h.ext.inUse hin)
    · exact h.blocks S k' a t ((hnew S).1 hS) he

end Insert

/-- An update of a new struct outside its map. -/
theorem Grove.update (h : Grove st R st') {c : Addr} {m : RpcStruct} (hc : st'.struct? c = some m)
    (hnew : st.New st' c) (m' : RpcStruct) (hmap : m'.map = m.map) (hlen : m'.ID.length = 65) :
    Grove st R (st'.setObj c (.struct m')) := by
  obtain ⟨hst, hinv⟩ := update_step h.wf.inv h.wf.stored hc m' hmap hlen
  have hentry := entry_update hc hmap
  have hheld : ∀ S k, (st'.setObj c (.struct m')).held S k = st'.held S k := fun S k => by
    rw [held, hentry, held]
  have hsome : ∀ a, st.New (st'.setObj c (.struct m')) a ↔ st.New st' a := by
    intro a
    unfold State.New
    rw [lookup_setObj]
    split
    · rename_i ha
      rw [ha, struct?_eq_some.1 hc]
      simp
    · exact Iff.rfl
  have hhangs : ∀ a b, st'.Hangs a b → (st'.setObj c (.struct m')).Hangs a b := by
    refine Relation.ReflTransGen.mono fun a b hl => ?_
    obtain ⟨k, hk⟩ := hl
    exact ⟨k, (hheld a k).trans hk⟩
  refine ⟨hinv.wf hst, ⟨fun a o ho => ?_, h.ext.tracker⟩, fun r hr => (hsome r).2 (h.roots r hr),
    fun r hr S k hh => h.unheld r hr S k (hheld S k ▸ hh), fun a ha => ?_,
    fun S k p hS hp => ?_, fun a ha => ?_, fun a r ha hr => ?_, fun S k a t hS he => ?_⟩
  · rw [lookup_setObj, if_neg]
    · exact h.ext.heap a o ho
    · intro ha
      rw [ha, hnew.1] at ho
      cases ho
  · obtain ⟨r, hr, hb⟩ := h.hangs a ((hsome a).1 ha)
    exact ⟨r, hr, hhangs r a hb⟩
  · rw [hsome] at hS ⊢
    rw [hheld] at hp
    exact h.closed S k p hS hp
  · obtain ⟨T, hT⟩ := h.parent a ((hsome a).1 ha)
    exact ⟨T, fun S k hh => hT S k (hheld S k ▸ hh)⟩
  · rw [holders_congr hheld]
    exact h.count a r ((hsome a).1 ha) hr
  · exact h.blocks S k a t ((hsome S).1 hS) (hentry S k ▸ he)

/-! ### Leaves -/

theorem sizedbufCopy_grove (E : Env) (args : ArgOrder) (h : WF st) {p : Addr} {b : RpcSizedbuf}
    (hb : st.heap.lookup p = some (.sizedbuf b)) :
    ∃ st' q, rpcSizedbufCopy E args st p = .ok (st', q) ∧ Grove st {q} st' ∧
      st'.heap.lookup q = some (.sizedbuf ⟨args.bytes b.buf⟩) := by
  refine ⟨st.setObj (E.malloc st) (.sizedbuf ⟨args.bytes b.buf⟩), E.malloc st,
    by rw [rpcSizedbufCopy, hb]; rfl, .create E h nofun, by rw [lookup_setObj, if_pos rfl]⟩

theorem onFunction_setObj {a : Addr} {f : RpcFunction} (g : RpcFunction → RpcFunction) :
    onFunction (st.setObj a (.function f)) a g = .ok (st.setObj a (.function (g f))) := by
  rw [onFunction, lookup_setObj, if_pos rfl]
  simp only [State.setObj, AList.insert_insert]

theorem functionCopy_grove (E : Env) (h : WF st) {p : Addr} {f : RpcFunction}
    (hf : st.heap.lookup p = some (.function f)) :
    ∃ st' q, rpcFunctionCopy E st p = .ok (st', q) ∧ Grove st {q} st' ∧
      st'.heap.lookup q = some (.function { f with prototype := some (f.prototype.getD []) }) := by
  refine ⟨st.setObj (E.malloc st) (.function { f with prototype := some (f.prototype.getD []) }),
    E.malloc st, ?_, .create E h nofun, by rw [lookup_setObj, if_pos rfl]⟩
  simp only [rpcFunctionCopy, hf, rpcFunctionCreate, rpcFunctionSetFnptr, rpcFunctionSetReturnType,
    rpcFunctionSetPrototype, onFunction_setObj, bind, Except.bind]

end Grove

end FfiRpc
