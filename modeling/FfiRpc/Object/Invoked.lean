import FfiRpc.Object.Borrowed

/-!
# A call from end to end

What a closure of a client in the same process is for: to call a function of the server
(`call_through`). When the closure returns, the server has called the function that is
registered under the object's ID and the function's name, with the arguments of the caller, and
what is left at `ret` is what that function returned. The one exception is a struct that stands
for an object the client has loaded, in whose place the client gets a copy of its own. A reply
without a value, be it for an error or from a function that returns none, gets past the check
of the type only where the closure is of a function that returns none.
-/
namespace FfiRpc

open State

/-- What is left at `ret` of what the function returned, by its type; the client has the reply
and the store `st`. -/
inductive Handed (E : Env) (udata : RpcClosureUdata) (infos : Table Addr Bool) (st : State) (reply : Addr)
    (returned : Returned) : RpcTypes → ReturnSlot → Prop
  | number : Handed E udata infos st reply returned .number (.bytes (toLE 8 returned.value.toNat))
  | real : Handed E udata infos st reply returned .real (.bytes (toLE 8 returned.value.toNat))
  | string {a} : st.entry reply (ascii "return") = some (.string a returned.text) →
    Handed E udata infos st reply returned .string (.address a)
  | sizedbuf : Handed E udata infos st reply returned .sizedbuf (.address returned.value.toNat)
  | function : Handed E udata infos st reply returned .function (.address returned.value.toNat)
  | struct :
    rpcStructExists st udata.loadedCobjects (rpcStructIdGet st returned.value.toNat) = false →
    Handed E udata infos st reply returned .struct (.address returned.value.toNat)
  | loaded {l st' copy} :
    rpcStructGetStruct st udata.loadedCobjects (rpcStructIdGet st returned.value.toNat) = some l →
    rpcStructCopy E (keepReturned infos st returned.value.toNat) l = .ok (st', copy) →
    Handed E udata infos st reply returned .struct (.address copy)

section
variable {E : Env} {ffiCall : FfiCall} {ffiClosureAlloc : State → Addr → Addr × Addr}
  {methodRequest : Server → Addr → Except Fault (Server × Addr)} {udata : RpcClosureUdata}
  {args : Nat → Passed} {infos : Table Addr Bool} {st : State} {s s1 s2 s' : Server}
  {S reply p a : Addr} {slot : ReturnSlot} {k : CStr} {e : RpcTypeT} {l : List (CStr × RpcTypeT)}
  {t : RpcTypes} {returned : Returned}

theorem HasFields.getNone (h : HasFields st S l) (hk : l.lookup k = none) :
    rpcStructGetInternal st S k = .none := by
  have hrel := h.entry k
  rw [hk] at hrel
  unfold rpcStructGetInternal
  cases he : st.entry S k with
  | none => rfl
  | some e =>
    rw [he] at hrel
    cases hrel

theorem HasFields.getEntry (h : HasFields st S l) (hk : l.lookup k = some e) :
    ∃ e', st.entry S k = some e' ∧ e.SameValue e' := by
  have hrel := h.entry k
  rw [hk] at hrel
  cases he : st.entry S k with
  | none =>
    rw [he] at hrel
    cases hrel
  | some e' =>
    rw [he] at hrel
    cases hrel with
    | some hv => exact ⟨e', rfl, hv⟩

/-- The value under "return" is what the function returned; the client takes it out. -/
theorem returnValue_handed (hstored : returned.stored t = true)
    (he : s1.store.entry reply (ascii "return") = some e) (hv : (returnElement t returned).SameValue e)
    (hok : returnValue E methodRequest ffiClosureAlloc udata infos s1 e = .ok (s2, slot)) :
    Handed E udata infos s1.store reply returned t slot := by
  have htake : (toLE 8 returned.value.toNat).take 8 = toLE 8 returned.value.toNat :=
    List.take_of_length_le (by rw [length_toLE])
  cases t with
  | none => simp [Returned.stored] at hstored
  | unknown => simp [Returned.stored] at hstored
  | number =>
    cases hv
    cases hok
    rw [htake]
    exact .number
  | real =>
    cases hv
    cases hok
    rw [htake]
    exact .real
  | string =>
    cases e with
    | string b text =>
      cases hv
      cases hok
      exact .string he
    | _ => cases hv
  | sizedbuf =>
    cases hv
    cases hok
    exact .sizedbuf
  | function =>
    cases hv
    cases hok
    exact .function
  | struct =>
    cases hv
    obtain ⟨⟨s3, a⟩, hstruct, hok⟩ := bind_eq_ok.1 hok
    cases hok
    rcases returnStruct_cases (heap_keepReturned infos s1.store _) hstruct with hloaded | hnew
    · obtain ⟨l, st1, hl, hcopy, -⟩ := hloaded
      exact .loaded hl hcopy
    · obtain ⟨hnew, rfl, -⟩ := hnew
      exact .struct hnew

end

end FfiRpc
