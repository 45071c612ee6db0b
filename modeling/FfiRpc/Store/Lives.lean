import FfiRpc.Store.Runs

/-!
# What a call leaves alive

`Op.lives`: only a removal or a free takes objects away, and it takes exactly those it
leaves unreferenced (`Op.released`). Every other object keeps its type and, if it is a
struct, the note of which struct it was copied from.
-/
namespace FfiRpc

open State

/-- The `copyof` of a struct. -/
def Obj.copyof : Obj → Addr
  | .struct s => s.copyof
  | _ => 0

/-- The objects of `R` are gone; the others are what they were. -/
structure Lives (R : Set Addr) (st st' : State) : Prop where
  gone : ∀ a, a ∈ R → st'.heap.lookup a = none
  stay : ∀ a o, a ∉ R → st.heap.lookup a = some o →
    ∃ o', st'.heap.lookup a = some o' ∧ o'.type = o.type ∧ o'.copyof = o.copyof

/-- The objects a call releases. -/
def Op.released (st : State) : Op → Set Addr
  | .remove S k => st.reclaimed st.surplus ∅ {(S, k)}
  | .free _ x => st.reclaimed st.surplus {x} ∅
  | _ => ∅

section
variable {st st1 st' : State}

theorem Obj.Less.copyof {P : CStr → Prop} {o o' : Obj} (h : o.Less P o') : o'.copyof = o.copyof := by
  cases o with
  | struct s =>
    cases o' with
    | struct s' => exact h.2.1
    | _ => cases h
  | _ => rw [show o' = _ from h]

theorem Lives.refl (st : State) : Lives ∅ st st :=
  ⟨nofun, fun _ o _ ho => ⟨o, ho, rfl, rfl⟩⟩

/-- A new object, or an update of a live one. -/
theorem Lives.setObj (hheap : st1.heap = st.heap) {a : Addr} {o' : Obj}
    (h : ∀ o, st.heap.lookup a = some o → o'.type = o.type ∧ o'.copyof = o.copyof) :
    Lives ∅ st (st1.setObj a o') := by
  refine ⟨nofun, fun b o _ ho => ?_⟩
  rw [lookup_setObj]
  split
  · rename_i hb
    subst hb
    exact ⟨o', rfl, h o ho⟩
  · exact ⟨o, by rw [hheap, ho], rfl, rfl⟩

theorem Lives.create (E : Env) (st : State) (o : Obj) : Lives ∅ st (st.setObj (E.malloc st) o) := by
  refine .setObj rfl fun o' ho' => ?_
  rw [malloc_dead] at ho'
  cases ho'

theorem Outcome.lives {R : Set Addr} {P : Set (Addr × CStr)} (h : Outcome R P st st') :
    Lives R st st' := by
  refine ⟨h.gone, fun a o ha ho => ?_⟩
  obtain ⟨o', ho', hl⟩ := h.stay a o ha ho
  exact ⟨o', ho', hl.type, hl.copyof⟩

theorem Lives.function {fn : Addr} {g : RpcFunction → RpcFunction}
    (hok : onFunction st fn g = .ok st') : Lives ∅ st st' := by
  unfold onFunction at hok
  split at hok
  · rename_i f hf
    cases hok
    refine .setObj rfl fun o ho => ?_
    rw [hf] at ho
    cases ho
    exact ⟨rfl, rfl⟩
  · cases hok

/-- An update of the struct at `S` other than of its `copyof`. -/
theorem Lives.struct (hheap : st1.heap = st.heap) {S : Addr} {s s' : RpcStruct}
    (hs : st.struct? S = some s) (hc : s'.copyof = s.copyof) :
    Lives ∅ st (st1.setObj S (.struct s')) := by
  refine .setObj hheap fun o ho => ?_
  rw [struct?_eq_some.1 hs] at ho
  cases ho
  exact ⟨rfl, hc⟩

theorem Lives.setInternal {E : Env} {S : Addr} {k : CStr} {e : RpcTypeT} {ret : Nat}
    (hok : rpcStructSetInternal E st S k e = .ok (st', ret)) : Lives ∅ st st' := by
  unfold rpcStructSetInternal at hok
  split at hok
  · cases hok
  · rename_i s hs
    split at hok
    · cases hok
      exact .refl st
    · split at hok
      · cases hok
        exact .refl st
      · cases hok
        exact .struct (heap_trackElement S k e) hs rfl

theorem Lives.set {E : Env} {S : Addr} {k : CStr} {e : RpcTypeT} {ret : Nat}
    (hok : rpcStructSet E st S k e = .ok (st', ret)) : Lives ∅ st st' := by
  unfold rpcStructSet at hok
  split at hok
  · cases hok
    exact .refl st
  · exact .setInternal hok

theorem Lives.idSet {S : Addr} {ID : CStr} (hok : rpcStructIdSet st S ID = .ok st') :
    Lives ∅ st st' := by
  unfold rpcStructIdSet at hok
  split at hok
  · cases hok
  · rename_i s hs
    split at hok
    · cases hok
    · cases hok
      exact .struct rfl hs rfl

theorem Lives.copy {E : Env} (h : WF st) {o : Addr} {c : Addr}
    (hok : rpcStructCopy E st o = .ok (st', c)) : Lives ∅ st st' := by
  cases hs : st.struct? o with
  | none => simp [rpcStructCopy, hs] at hok
  | some s =>
    obtain ⟨st2, c2, hok2, -, -, hcopied⟩ := copy_spec E h.inv h.stored hs
    rw [hok] at hok2
    cases hok2
    refine ⟨(fun S hS => by cases hS), fun a x _ hx => ⟨x, ?_, rfl, rfl⟩⟩
    rw [hcopied.frame a, hx]
    intro ha
    exact hcopied.fresh (ha ▸ .inr (.inl ⟨x, hx⟩))

/-- The objects after a call. -/
theorem Op.lives (E : Env) {op : Op} (h : WF st) (hl : op.Legal st) (hok : op.run E st = .ok st') :
    Lives (op.released st) st st' := by
  cases op with
  | structCreate => cases hok; exact .create E st _
  | sizedbufCreate buf => cases hok; exact .create E st _
  | functionCreate => cases hok; exact .create E st _
  | set S k e =>
    obtain ⟨ret, hok⟩ := map_fst_eq_ok hok
    exact .set hok
  | remove S k =>
    obtain ⟨⟨s, hs⟩, hS⟩ := hl
    obtain ⟨st2, hok2, -, hout⟩ := remove_top_spec E h.inv hs k hS
    simp only [Op.run, hok2] at hok
    cases hok
    exact hout.lives
  | free t x =>
    obtain ⟨o, ho, rfl⟩ := hl
    obtain ⟨st2, hok2, -, hout⟩ := free_spec E h.inv ho (Finset.notMem_empty x)
    simp only [Op.run, hok2] at hok
    cases hok
    exact hout.lives
  | idSet S ID => exact .idSet hok
  | setPrototype fn p => exact .function hok
  | setReturnType fn t => exact .function hok
  | setFnptr fn a => exact .function hok
  | copy o =>
    obtain ⟨c, hok⟩ := map_fst_eq_ok hok
    exact .copy h hok

end

end FfiRpc
