import FfiRpc.Core.Bytes
import FfiRpc.Core.Fallible
import FfiRpc.Store.DeepApi

/-!
# `rpc_struct_hash`

The hash of a struct (rpc_struct.c:784-811) chains over the values of its map in the order
in which the map is enumerated; the keys do not enter. A function contributes the first
eight bytes of the object, which are the address of its prototype; a sizedbuf contributes
its length, since the results of the two calls of `murmur` in `rpc_sizedbuf_hash` are not
used.

`hash_same`: structs of equal content have one hash if their maps are enumerated in step
and their functions have one prototype pointer (`InStep`). A struct and its deep copy have
different hashes as soon as they hold a function (`hash_of_copy_differs`).
-/
namespace FfiRpc

open State
open Nesting (DepthLE)

/-- What the hash reads outside the objects' fields: the address of a function's prototype,
and the eight bytes at the address of an unknown pointer. -/
structure Memory where
  prototype : State → Addr → UInt64
  bytes : Addr → List UInt8

/-- The body of the loop, src/rpc_struct.c:71-73 -/
def murmurStep (h : UInt64) (b : UInt8) : UInt64 :=
  let h := h ^^^ b.toUInt64
  let h := h * 0x5bd1e9955bd1e995
  h ^^^ (h >>> 47)

/-- `keylen` is 32 bits wide.
mirrors src/rpc_struct.c:68-76 (`murmur`) -/
def murmur (inbuf : List UInt8) (keylen : Nat) : UInt64 :=
  (inbuf.take (keylen % 2 ^ 32)).foldl murmurStep 525201411107845655

/-- The bytes of a 64-bit number. -/
def bytes64 (v : UInt64) : List UInt8 := toLE 8 v.toNat

/-- mirrors src/rpc_sizedbuf.c:128-135 (`rpc_sizedbuf_hash`) -/
def rpcSizedbufHash (b : RpcSizedbuf) : UInt64 :=
  let hash : UInt64 := 0
  let _ := murmur b.buf b.buf.length
  let hash := hash + UInt64.ofNat b.buf.length
  let _ := murmur (bytes64 hash) 8
  hash

section Code
variable (E : Env) (mem : Memory)

/-- The first field of `struct _rpc_function`. -/
def prototypePtr (st : State) (fn : Addr) (f : RpcFunction) : UInt64 :=
  match f.prototype with
  | none => 0
  | some _ => mem.prototype st fn

/-- What an element adds to the hash; `rec` hashes a nested struct.
mirrors src/rpc_struct.c:791-804 -/
def hashElement (rec : Addr → Except Fault UInt64) (st : State) : RpcTypeT → Except Fault UInt64
  | .struct p => rec p
  | .sizedbuf p =>
    match st.heap.lookup p with
    | some (.sizedbuf b) => .ok (rpcSizedbufHash b)
    | _ => .error (.useAfterFree p)
  | .string _ text => .ok (murmur (text ++ [0]) (text.length + 1))
  | .function p =>
    match st.heap.lookup p with
    | some (.function f) => .ok (murmur (bytes64 (prototypePtr mem st p f)) 8)
    | _ => .error (.useAfterFree p)
  | .unknown p => .ok (murmur (mem.bytes p) 8)
  | .number raw => .ok (murmur raw raw.length)
  | .real raw => .ok (murmur raw raw.length)
  | .none => .ok (murmur [] 0)

/-- One turn of the loop.
mirrors src/rpc_struct.c:790-806 -/
def hashStep (rec : Addr → Except Fault UInt64) (st : State) (hash : UInt64) (element : RpcTypeT) :
    Except Fault UInt64 := do
  let h ← hashElement mem rec st element
  .ok (murmur (bytes64 (hash + h)) 8)

/-- The values of the map of `S`, as they are enumerated. -/
def elements (st : State) (S : Addr) : List RpcTypeT :=
  match st.struct? S with
  | some s => (E.order st S s.map.keys).filterMap fun k => s.map.lookup k
  | none => []

/-- mirrors src/rpc_struct.c:784-811 (`rpc_struct_hash`); the first argument bounds the
nesting of calls. -/
def rpcStructHash : Nat → State → Addr → Except Fault UInt64
  | 0, _, _ => .error .outOfFuel
  | n + 1, st, S =>
    match st.struct? S with
    | none => .error (.useAfterFree S)
    | some _ => (elements E st S).foldlM (hashStep mem (rpcStructHash n st) st) 0

end Code

/-! ## When it returns -/

section
variable {E : Env} {mem : Memory} {st : State}

theorem mem_elements {S : Addr} {e : RpcTypeT} :
    e ∈ elements E st S ↔ ∃ k, st.entry S k = some e := by
  unfold elements
  cases hs : st.struct? S with
  | none => simp [entry, hs]
  | some s =>
    simp only [List.mem_filterMap, (E.order_perm ..).mem_iff, entry_of_struct hs]
    constructor
    · intro h
      obtain ⟨k, -, hk⟩ := h
      exact ⟨k, hk⟩
    · intro h
      obtain ⟨k, hk⟩ := h
      exact ⟨k, Table.mem_keys_iff.2 ⟨e, hk⟩, hk⟩

/-- An element that refers to a live object of its type is hashed, a struct if the call
for it returns. -/
theorem hashElement_stops {S : Addr} {k : CStr} {e : RpcTypeT} {n : Nat} (h : WF st)
    (he : st.entry S k = some e)
    (hrec : ∀ p s, e = .struct p → st.struct? p = some s →
      StopsIff .outOfFuel (DepthLE st.Edge n p) (rpcStructHash E mem n st p) fun _ => True) :
    StopsIff .outOfFuel (∀ p, e = .struct p → DepthLE st.Edge n p)
      (hashElement mem (rpcStructHash E mem n st) st e) fun _ => True := by
  have hlive : ∀ p, e.target = some p → ∃ o, st.heap.lookup p = some o ∧ o.type = e.type :=
    fun p hp => h.inv.typed S k e p he hp (Set.notMem_empty p) (Finset.notMem_empty _)
  cases e with
  | struct p =>
    obtain ⟨o, ho, hty⟩ := hlive p rfl
    cases o with
    | struct s =>
      have hp := hrec p s rfl (struct?_eq_some.2 ho)
      have hone : (∀ p', RpcTypeT.struct p = .struct p' → DepthLE st.Edge n p') ↔
          DepthLE st.Edge n p := ⟨fun hd => hd p rfl, fun hd p' hp' => by cases hp'; exact hd⟩
      unfold StopsIff at hp ⊢
      rw [hone]
      exact hp
    | sizedbuf b => cases hty
    | function f => cases hty
  | sizedbuf p =>
    obtain ⟨o, ho, hty⟩ := hlive p rfl
    cases o with
    | sizedbuf b => exact .inl ⟨nofun, _, by rw [hashElement, ho], trivial⟩
    | struct s => cases hty
    | function f => cases hty
  | function p =>
    obtain ⟨o, ho, hty⟩ := hlive p rfl
    cases o with
    | function f => exact .inl ⟨nofun, _, by rw [hashElement, ho], trivial⟩
    | struct s => cases hty
    | sizedbuf b => cases hty
  | _ => exact .inl ⟨nofun, _, rfl, trivial⟩

theorem hashStep_stops {S : Addr} {k : CStr} {e : RpcTypeT} {n : Nat} (h : WF st)
    (he : st.entry S k = some e) (hash : UInt64)
    (hrec : ∀ p s, e = .struct p → st.struct? p = some s →
      StopsIff .outOfFuel (DepthLE st.Edge n p) (rpcStructHash E mem n st p) fun _ => True) :
    StopsIff .outOfFuel (∀ p, e = .struct p → DepthLE st.Edge n p)
      (hashStep mem (rpcStructHash E mem n st) st hash e) fun _ => True := by
  unfold hashStep
  rcases hashElement_stops h he hrec with ⟨hC, v, hv, -⟩ | ⟨hC, hv⟩
  · rw [hv]
    exact .inl ⟨hC, _, rfl, trivial⟩
  · rw [hv]
    exact .inr ⟨hC, rfl⟩

/-- Some bound is enough exactly if the nesting is within it. -/
theorem hash_stops (E : Env) (mem : Memory) (h : WF st) (n : Nat) :
    ∀ S s, st.struct? S = some s →
      StopsIff .outOfFuel (DepthLE st.Edge n S) (rpcStructHash E mem n st S) fun _ => True := by
  induction n with
  | zero => exact fun S s _ => .inr ⟨nofun, rfl⟩
  | succ n ih =>
    intro S s hs
    have hloop := StopsIff.foldlM_each (f := hashStep mem (rpcStructHash E mem n st) st)
      (C := fun e => ∀ p, e = .struct p → DepthLE st.Edge n p) (elements E st S) 0
      fun hash e he => by
        obtain ⟨k, hk⟩ := mem_elements.1 he
        exact hashStep_stops h hk hash fun p t _ ht => ih p t ht
    unfold rpcStructHash
    rw [hs]
    refine hloop.congr ⟨fun hd e he p hp => ?_, fun hall => .mk fun p hp => ?_⟩
    · obtain ⟨k, hk⟩ := mem_elements.1 he
      obtain ⟨hd⟩ := hd
      exact hd p ⟨k, hp ▸ hk⟩
    · obtain ⟨k, hk⟩ := hp
      exact hall _ (mem_elements.2 ⟨k, hk⟩) p rfl

end

/-! ## Equal content -/

/-- `e` and `e'` have the same content; the objects they refer to may be different ones.
There is no clause for unknown pointers. -/
inductive SameContent (st : State) : RpcTypeT → RpcTypeT → Prop
  | number {raw} : SameContent st (.number raw) (.number raw)
  | real {raw} : SameContent st (.real raw) (.real raw)
  | string {q q' t} : SameContent st (.string q t) (.string q' t)
  | sizedbuf {p q b} : st.heap.lookup p = some (.sizedbuf b) →
      st.heap.lookup q = some (.sizedbuf b) → SameContent st (.sizedbuf p) (.sizedbuf q)
  | function {p q f g} : st.heap.lookup p = some (.function f) →
      st.heap.lookup q = some (.function g) → g.prototype.getD [] = f.prototype.getD [] →
      g.returnType = f.returnType → g.fnptr = f.fnptr → SameContent st (.function p) (.function q)
  | struct {S T s t} : st.struct? S = some s → st.struct? T = some t →
      (∀ k, t.map.lookup k = none ↔ s.map.lookup k = none) →
      (∀ k e e', s.map.lookup k = some e → t.map.lookup k = some e' → SameContent st e e') →
      SameContent st (.struct S) (.struct T)

/-- At every level the maps are enumerated so that entries of equal content come at equal
positions, and functions at equal positions have one prototype pointer. -/
inductive InStep (E : Env) (mem : Memory) (st : State) : RpcTypeT → RpcTypeT → Prop
  | value {e e'} : e.type ≠ .struct → e.type ≠ .function → InStep E mem st e e'
  | function {p q f g} : st.heap.lookup p = some (.function f) →
      st.heap.lookup q = some (.function g) → prototypePtr mem st q g = prototypePtr mem st p f →
      InStep E mem st (.function p) (.function q)
  | struct {S T} : (elements E st T).length = (elements E st S).length →
      (∀ (i : Nat) e e', (elements E st S)[i]? = some e → (elements E st T)[i]? = some e' →
        SameContent st e e') →
      (∀ (i : Nat) e e', (elements E st S)[i]? = some e → (elements E st T)[i]? = some e' →
        InStep E mem st e e') → InStep E mem st (.struct S) (.struct T)

section
variable {E : Env} {mem : Memory} {st : State}

theorem hashElement_congr {n : Nat} {e e' : RpcTypeT} (hsame : SameContent st e e')
    (hstep : InStep E mem st e e')
    (hrec : ∀ p q, e = .struct p → e' = .struct q →
      rpcStructHash E mem n st q = rpcStructHash E mem n st p) :
    hashElement mem (rpcStructHash E mem n st) st e' =
      hashElement mem (rpcStructHash E mem n st) st e := by
  cases hsame with
  | number => rfl
  | real => rfl
  | string => rfl
  | sizedbuf hp hq => rw [hashElement, hashElement, hp, hq]
  | function hp hq =>
    cases hstep with
    | value _ hne => exact absurd rfl hne
    | function hp' hq' hptr =>
      rw [hashElement, hashElement, hp', hq']
      simp only [hptr]
  | struct => exact hrec _ _ rfl rfl

theorem hash_congr {e e' : RpcTypeT} (hstep : InStep E mem st e e') :
    SameContent st e e' → ∀ n S T, e = .struct S → e' = .struct T →
      rpcStructHash E mem n st T = rpcStructHash E mem n st S := by
  induction hstep with
  | value hne => exact fun _ n S T he _ => absurd (he ▸ rfl) hne
  | function => exact fun _ n S T he => by cases he
  | @struct S T hlen hcontent hsteps ih =>
    intro hsame n S' T' he he'
    cases he
    cases he'
    obtain ⟨s, t, hs, ht⟩ : ∃ s t, st.struct? S = some s ∧ st.struct? T = some t := by
      cases hsame with
      | struct hs ht => exact ⟨_, _, hs, ht⟩
    cases n with
    | zero => rfl
    | succ n =>
      unfold rpcStructHash
      rw [hs, ht]
      refine foldlM_congr_get 0 hlen fun i e e' hash hi hi' => ?_
      have helement := hashElement_congr (n := n) (hcontent i e e' hi hi') (hsteps i e e' hi hi')
        fun p q hp hq => ih i e e' hi hi' (hcontent i e e' hi hi') n p q hp hq
      unfold hashStep
      rw [helement]

/-- Content that is compared to the end is nested within some bound. -/
theorem SameContent.depthLE {e e' : RpcTypeT} (h : SameContent st e e') :
    ∀ p, e = .struct p → ∃ n, DepthLE st.Edge n p := by
  induction h with
  | @struct S T s t hs ht hkeys _ ih =>
    intro p hp
    cases hp
    obtain ⟨n, hn⟩ := Nesting.exists_bound
      (P := fun n k => ∀ p, s.map.lookup k = some (.struct p) → DepthLE st.Edge n p)
      (fun n m k hk hnm p hp => (hk p hp).mono hnm) s.map.keys fun k _ => by
        cases hk : s.map.lookup k with
        | none => exact ⟨0, nofun⟩
        | some e =>
          cases hk' : t.map.lookup k with
          | none =>
            rw [hkeys] at hk'
            cases hk.symm.trans hk'
          | some e' =>
            by_cases hp : ∃ p, e = .struct p
            · obtain ⟨p, hp⟩ := hp
              obtain ⟨n, hn⟩ := ih k e e' hk hk' p hp
              refine ⟨n, fun p' hp' => ?_⟩
              rw [hp] at hp'
              cases hp'
              exact hn
            · exact ⟨0, fun p hp' => absurd ⟨p, Option.some.inj hp'⟩ hp⟩
    refine ⟨n + 1, .mk fun q hq => ?_⟩
    obtain ⟨k, hk⟩ := hq
    rw [entry_of_struct hs] at hk
    exact hn k (Table.mem_keys_iff.2 ⟨_, hk⟩) q hk
  | _ =>
    intro p hp
    cases hp

/-- Structs of equal content have one hash, if they are enumerated in step. -/
theorem hash_same {args : ArgOrder} (h : (fullApi args).Reachable st) (E : Env) (mem : Memory)
    {S T : Addr} (hsame : SameContent st (.struct S) (.struct T))
    (hstep : InStep E mem st (.struct S) (.struct T)) :
    ∃ n v, rpcStructHash E mem n st S = .ok v ∧ rpcStructHash E mem n st T = .ok v := by
  obtain ⟨n, hdepth⟩ := hsame.depthLE S rfl
  obtain ⟨s, hs⟩ : ∃ s, st.struct? S = some s := by
    cases hsame with
    | struct hs => exact ⟨_, hs⟩
  rcases hash_stops E mem (fullApi_inv h).wf n S s hs with ⟨-, v, hv, -⟩ | ⟨hno, -⟩
  · exact ⟨n, v, hv, (hash_congr hstep hsame n S T rfl rfl).trans hv⟩
  · exact absurd hdepth hno

end

/-- Addresses as an allocator could give them to the prototypes. -/
def Memory.spaced : Memory := ⟨fun _ p => 4096 + 64 * UInt64.ofNat p, fun _ => []⟩

/-- Structs of one entry. -/
theorem SameContent.single {st : State} {S T : Addr} {s t : RpcStruct} {k : CStr} {e e' : RpcTypeT}
    (hs : st.struct? S = some s) (ht : st.struct? T = some t) (hsk : s.map = AList.insert k e ∅)
    (htk : t.map = AList.insert k e' ∅) (h : SameContent st e e') :
    SameContent st (.struct S) (.struct T) := by
  refine .struct hs ht (fun k' => ?_) fun k' d d' hd hd' => ?_
  · rw [hsk, htk, Table.lookup_insert_if, Table.lookup_insert_if]
    split <;> simp
  · rw [hsk, Table.lookup_insert_if] at hd
    rw [htk, Table.lookup_insert_if] at hd'
    split at hd
    · rw [if_pos ‹_›] at hd'
      cases hd
      cases hd'
      exact h
    · cases hd

theorem InStep.single {E : Env} {mem : Memory} {st : State} {S T : Addr} {e e' : RpcTypeT}
    (hS : elements E st S = [e]) (hT : elements E st T = [e']) (hsame : SameContent st e e')
    (h : InStep E mem st e e') : InStep E mem st (.struct S) (.struct T) := by
  have hget : ∀ (i : Nat) d d', (elements E st S)[i]? = some d → (elements E st T)[i]? = some d' →
      d = e ∧ d' = e' := by
    intro i d d' hd hd'
    rw [hS] at hd
    rw [hT] at hd'
    exact ⟨List.mem_singleton.1 (List.mem_of_getElem? hd),
      List.mem_singleton.1 (List.mem_of_getElem? hd')⟩
  refine .struct (by rw [hS, hT]; rfl) (fun i d d' hd hd' => ?_) fun i d d' hd hd' => ?_
  · obtain ⟨hde, hde'⟩ := hget i d d' hd hd'
    rw [hde, hde']
    exact hsame
  · obtain ⟨hde, hde'⟩ := hget i d d' hd hd'
    rw [hde, hde']
    exact h

/-- Two structs with one sizedbuf each, of equal bytes. -/
theorem hash_same_pair : ∃ st n v, (fullApi .getbufFirst).Reachable st ∧
    st.held 1 [107] = some 2 ∧ st.held 3 [107] = some 4 ∧
    rpcStructHash .bump .spaced n st 1 = .ok v ∧ rpcStructHash .bump .spaced n st 3 = .ok v := by
  obtain ⟨st, hb⟩ : ∃ st, build .bump .empty [.structCreate, .sizedbufCreate [7],
    .structCreate, .sizedbufCreate [7], .set 1 [107] (.sizedbuf 2),
    .set 3 [107] (.sizedbuf 4)] = some st := ⟨_, rfl⟩
  have h : (fullApi .getbufFirst).Reachable st := build_full (.init rfl) hb
  have hbuf : SameContent st (.sizedbuf 2) (.sizedbuf 4) := by
    cases hb
    exact .sizedbuf rfl rfl
  have hsame : SameContent st (.struct 1) (.struct 3) := by
    cases hb
    exact .single (k := [107]) rfl rfl rfl rfl hbuf
  have helements : elements .bump st 1 = [.sizedbuf 2] ∧ elements .bump st 3 = [.sizedbuf 4] := by
    cases hb
    exact ⟨rfl, rfl⟩
  obtain ⟨n, v, hv, hv'⟩ := hash_same h .bump .spaced hsame
    (.single helements.1 helements.2 hbuf (.value nofun nofun))
  exact ⟨st, n, v, h, by cases hb; rfl, by cases hb; rfl, hv, hv'⟩

/-- A struct that holds a function, and its deep copy. -/
theorem hash_of_copy_differs : ∃ st st' v w, (fullApi .getbufFirst).Reachable st ∧
    DeepCopiesTo .bump .getbufFirst st 1 st' 3 ∧ SameContent st' (.struct 1) (.struct 3) ∧
    rpcStructHash .bump .spaced 1 st' 1 = .ok v ∧ rpcStructHash .bump .spaced 1 st' 3 = .ok w ∧
    v ≠ w := by
  obtain ⟨st, hb⟩ : ∃ st, build .bump .empty [.structCreate, .functionCreate,
    .setPrototype 2 [1], .set 1 [107] (.function 2)] = some st := ⟨_, rfl⟩
  have h : (fullApi .getbufFirst).Reachable st := build_full (.init rfl) hb
  cases hb
  refine ⟨_, _, _, _, h, ⟨1, rfl⟩, ?_, rfl, rfl, by decide +kernel⟩
  exact .single (k := [107]) rfl rfl rfl rfl
    (.function (f := ⟨some [1], 0, 0⟩) (g := ⟨some [1], 0, 0⟩) rfl rfl rfl rfl rfl)

end FfiRpc
