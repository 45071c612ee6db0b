import FfiRpc.Store.DeepLaws

/-!
# The sizedbufs of a copy

`rpc_sizedbuf_copy` passes `rpc_sizedbuf_getbuf(szbuf, &len)` and `len` in one call. C does not
say which of the two is evaluated first; if it is `len`, it is still 0 and the copy is empty.

`buffers_copied_iff`: a copy has the bytes of its original, and a deep copy those of every
sizedbuf at any level, exactly if the buffer is evaluated first or there are no bytes.
-/
namespace FfiRpc

open State
open Nesting (Acyclic)

/-- The struct found from `S` along some keys. -/
def State.walk (st : State) : Addr → List CStr → Option Addr
  | S, [] => some S
  | S, key :: path =>
    match st.entry S key with
    | some (.struct p) => st.walk p path
    | _ => none

/-- Every sizedbuf below `o` has its bytes at the same place below `c`. -/
def BuffersKept (st : State) (o : Addr) (st' : State) (c : Addr) : Prop :=
  ∀ path S k p b, st.walk o path = some S → st.entry S k = some (.sizedbuf p) →
    st.heap.lookup p = some (.sizedbuf b) →
    ∃ T q, st'.walk c path = some T ∧ st'.entry T k = some (.sizedbuf q) ∧
      st'.heap.lookup q = some (.sizedbuf b)

/-- No sizedbuf below `o` has bytes. -/
def BuffersEmpty (st : State) (o : Addr) : Prop :=
  ∀ path S k p b, st.walk o path = some S → st.entry S k = some (.sizedbuf p) →
    st.heap.lookup p = some (.sizedbuf b) → b.buf = []

section
variable {args : ArgOrder} {st st' : State}

theorem bytes_eq_iff {buf : List UInt8} :
    args.bytes buf = buf ↔ args = .getbufFirst ∨ buf = [] := by
  cases args with
  | getbufFirst => simp [ArgOrder.bytes]
  | lengthFirst => simp [ArgOrder.bytes, eq_comm]

theorem Extends.walk (h : Extends st st') (hwf : WF st) {o : Addr} (ho : o ∈ st.live)
    (path : List CStr) : st'.walk o path = st.walk o path := by
  induction path generalizing o with
  | nil => rfl
  | cons key path ih =>
    unfold State.walk
    rw [h.entry ho]
    cases he : st.entry o key with
    | none => rfl
    | some e =>
      cases e with
      | struct p => exact ih (hwf.inv.held_live (held_eq_some.2 ⟨_, he, rfl⟩))
      | _ => rfl

/-- The copy can be walked as the original. -/
theorem DeepItem.walk {A B : Set Addr} {o c S : Addr} {path : List CStr}
    (h : DeepItem args st A B (.struct o) (.struct c)) (hS : st.walk o path = some S) :
    ∃ T, st.walk c path = some T ∧ DeepItem args st A B (.struct S) (.struct T) := by
  induction path generalizing o c with
  | nil =>
    cases hS
    exact ⟨c, rfl, h⟩
  | cons key path ih =>
    unfold State.walk at hS
    split at hS
    · rename_i p hp
      obtain ⟨s, m, -, -, hs, hm, -, -, hkeys, -, hitems⟩ := h.struct_inv
      rw [entry_of_struct hs] at hp
      cases he : m.map.lookup key with
      | none =>
        rw [hkeys, hp] at he
        cases he
      | some e =>
        have hitem := hitems key _ e hp he
        cases hitem with
        | @struct _ q =>
          obtain ⟨T, hT, hitem⟩ := ih (hitems key _ _ hp he) hS
          refine ⟨T, ?_, hitem⟩
          unfold State.walk
          rw [entry_of_struct hm, he]
          exact hT
    · cases hS

/-- What the copy of a struct holds for a sizedbuf. -/
theorem DeepItem.buffer {A B : Set Addr} {S T p : Addr} {k : CStr} {b : RpcSizedbuf}
    (h : DeepItem args st A B (.struct S) (.struct T)) (hk : st.entry S k = some (.sizedbuf p))
    (hb : st.heap.lookup p = some (.sizedbuf b)) :
    ∃ q, st.entry T k = some (.sizedbuf q) ∧
      st.heap.lookup q = some (.sizedbuf ⟨args.bytes b.buf⟩) := by
  obtain ⟨s, m, -, -, hs, hm, -, -, hkeys, -, hitems⟩ := h.struct_inv
  rw [entry_of_struct hs] at hk
  cases he : m.map.lookup k with
  | none =>
    rw [hkeys, hk] at he
    cases he
  | some e =>
    have hitem := hitems k _ e hk he
    cases hitem with
    | @sizedbuf _ q b' _ _ hb' hq =>
      rw [hb] at hb'
      cases hb'
      exact ⟨q, (entry_of_struct hm k).trans he, hq⟩

theorem buffersKept_iff (hwf : WF st) {o c : Addr} (ho : o ∈ st.live) (hext : Extends st st')
    (hitem : DeepItem args st' st.live {a | st.New st' a} (.struct o) (.struct c)) :
    BuffersKept st o st' c ↔ args = .getbufFirst ∨ BuffersEmpty st o := by
  -- what the copy has for a sizedbuf of the original
  have hcopy : ∀ path S k p b, st.walk o path = some S → st.entry S k = some (.sizedbuf p) →
      st.heap.lookup p = some (.sizedbuf b) → ∃ T q, st'.walk c path = some T ∧
        st'.entry T k = some (.sizedbuf q) ∧
        st'.heap.lookup q = some (.sizedbuf ⟨args.bytes b.buf⟩) := by
    intro path S k p b hS hk hb
    obtain ⟨s, hs, -⟩ := entry_eq_some.1 hk
    have hlive : S ∈ st.live := ⟨_, struct?_eq_some.1 hs⟩
    rw [← hext.walk hwf ho] at hS
    rw [← hext.entry hlive] at hk
    obtain ⟨T, hT, hitem⟩ := hitem.walk hS
    obtain ⟨q, hq, hb'⟩ := hitem.buffer hk (hext.heap p _ hb)
    exact ⟨T, q, hT, hq, hb'⟩
  constructor
  · intro hkept
    by_cases hargs : args = .getbufFirst
    · exact .inl hargs
    · refine .inr fun path S k p b hS hk hb => ?_
      obtain ⟨T, q, hT, hq, hb'⟩ := hkept path S k p b hS hk hb
      obtain ⟨T', q', hT', hq', hbytes⟩ := hcopy path S k p b hS hk hb
      rw [hT] at hT'
      cases hT'
      rw [hq] at hq'
      cases hq'
      rw [hb'] at hbytes
      injection hbytes with hbytes
      injection hbytes with hbytes
      have hbuf : args.bytes b.buf = b.buf := (congrArg RpcSizedbuf.buf hbytes).symm
      exact (bytes_eq_iff.1 hbuf).resolve_left hargs
  · intro hcond path S k p b hS hk hb
    have hbuf : args.bytes b.buf = b.buf :=
      bytes_eq_iff.2 (hcond.imp_right fun hempty => hempty path S k p b hS hk hb)
    obtain ⟨T, q, hT, hq, hb'⟩ := hcopy path S k p b hS hk hb
    rw [hbuf] at hb'
    exact ⟨T, q, hT, hq, hb'⟩

end

/-- The copy of a sizedbuf has its bytes, and a deep copy those of every sizedbuf below,
exactly if the buffer is evaluated first or there are no bytes to copy. -/
theorem buffers_copied_iff {args : ArgOrder} {st : State} (h : (fullApi args).Reachable st)
    (E : Env) :
    (∀ p b, st.heap.lookup p = some (.sizedbuf b) → ∃ st' q b',
      rpcSizedbufCopy E args st p = .ok (st', q) ∧ st'.heap.lookup q = some (.sizedbuf b') ∧
      (b' = b ↔ args = .getbufFirst ∨ b.buf = [])) ∧
    ∀ o st' c, DeepCopiesTo E args st o st' c →
      (BuffersKept st o st' c ↔ args = .getbufFirst ∨ BuffersEmpty st o) := by
  have hinv := fullApi_inv h
  constructor
  · intro p b hb
    obtain ⟨st', q, hok, -, hq⟩ := sizedbufCopy_grove E args hinv.wf hb
    refine ⟨st', q, _, hok, hq, ?_⟩
    rw [← bytes_eq_iff]
    constructor
    · intro hb'
      exact congrArg RpcSizedbuf.buf hb'
    · intro hbuf
      rw [hbuf]
  · intro o st' c hcopy
    obtain ⟨n, hok⟩ := hcopy
    have hs : ∃ s, st.struct? o = some s := by
      cases n with
      | zero => cases hok
      | succ n =>
        cases hs : st.struct? o with
        | some s => exact ⟨s, rfl⟩
        | none =>
          simp only [rpcStructDeepCopy, hs] at hok
          cases hok
    obtain ⟨s, hs⟩ := hs
    have hacyclic : Acyclic st.Edge o := (deepCopy_stops_iff E h hs).1 ⟨n, by rw [hok]; exact fun hc => by cases hc⟩
    obtain ⟨st2, c2, hcopy, hgrove, hitem⟩ :=
      deepCopiesTo_spec E args hinv.wf hinv.named hs hacyclic
    obtain ⟨rfl, rfl⟩ := hcopy.unique ⟨n, hok⟩
    exact buffersKept_iff hinv.wf ⟨_, struct?_eq_some.1 hs⟩ hgrove.ext hitem

/-- A sizedbuf in a struct in a struct. -/
theorem buffers_copied_nested : ∃ st st' c, st.walk 1 [[107]] = some 2 ∧
    st.entry 2 [108] = some (.sizedbuf 3) ∧ DeepCopiesTo .bump .getbufFirst st 1 st' c ∧
    BuffersKept st 1 st' c := by
  obtain ⟨st, hb⟩ : ∃ st, build .bump .empty [.structCreate, .structCreate, .sizedbufCreate [7, 0],
    .set 1 [107] (.struct 2), .set 2 [108] (.sizedbuf 3)] = some st := ⟨_, rfl⟩
  have h : (fullApi .getbufFirst).Reachable st := build_full (.init rfl) hb
  obtain ⟨st', c, hcopy⟩ : ∃ st' c, DeepCopiesTo .bump .getbufFirst st 1 st' c := by
    cases hb
    exact ⟨_, _, 2, rfl⟩
  exact ⟨st, st', c, by cases hb; rfl, by cases hb; rfl, hcopy,
    ((buffers_copied_iff h .bump).2 1 st' c hcopy).2 (.inl rfl)⟩

/-- With `len` evaluated first, the copy of a sizedbuf with one byte has none. -/
theorem buffers_lost : ∃ st st' c st2 q, (fullApi .lengthFirst).Reachable st ∧
    st.entry 1 [107] = some (.sizedbuf 2) ∧ st.heap.lookup 2 = some (.sizedbuf ⟨[7]⟩) ∧
    rpcSizedbufCopy .bump .lengthFirst st 2 = .ok (st2, q) ∧
    st2.heap.lookup q = some (.sizedbuf ⟨[]⟩) ∧
    DeepCopiesTo .bump .lengthFirst st 1 st' c ∧ ¬ BuffersKept st 1 st' c := by
  obtain ⟨st, hb⟩ : ∃ st, build .bump .empty [.structCreate, .sizedbufCreate [7],
    .set 1 [107] (.sizedbuf 2)] = some st := ⟨_, rfl⟩
  have h : (fullApi .lengthFirst).Reachable st := build_full (.init rfl) hb
  cases hb
  refine ⟨_, _, _, _, _, h, rfl, rfl, rfl, rfl, ⟨1, rfl⟩, fun hkept => ?_⟩
  obtain ⟨T, q, hT, hq, hbuf⟩ := hkept [] 1 [107] 2 ⟨[7]⟩ rfl rfl rfl
  cases hT
  cases hq
  cases hbuf

end FfiRpc
