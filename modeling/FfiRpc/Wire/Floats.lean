import FfiRpc.Wire.Cycles
import FfiRpc.Wire.Single

/-!
# Floats

A `float` is stored with its four bytes. `rpc_struct_serialize` widens it to a double,
`item_parse` stores the eight bytes of that double, and `rpc_struct_get` copies as many bytes
as fit the variable, which are the low half of the double: the last three bits of the
fraction, and zeros. No normal float is read back as it was stored (`float_not_kept`).
-/
namespace FfiRpc

open State

/-! ## Reading a variable -/

/-- What `memcpy` takes from an element. -/
def RpcTypeT.bytes : RpcTypeT → List UInt8
  | .number raw | .real raw => raw
  | .none => []
  | e => toLE 8 e.ptrValue

/-- `t` is the type tag of the variable, `output` its bytes; the result is what the macro
gives, and the bytes of the variable afterwards.
mirrors include/ffirpc/rpc_struct.h:297-298 (`rpc_struct_get`) -/
def rpcStructGet (st : State) (S : Addr) (key : CStr) (t : RpcTypes) (output : List UInt8) :
    Nat × List UInt8 :=
  let element := rpcStructGetInternal st S key
  if element.type ≠ .none ∧ element.type = t then
    (0, element.bytes.take output.length ++ output.drop element.bytes.length)
  else (1, output)

theorem get_real {st : State} {S : Addr} {k : CStr} {raw output : List UInt8}
    (hk : st.entry S k = some (.real raw)) (hlen : output.length ≤ raw.length) :
    rpcStructGet st S k .real output = (0, raw.take output.length) := by
  unfold rpcStructGet rpcStructGetInternal
  rw [hk]
  simp [RpcTypeT.type, RpcTypeT.bytes, List.drop_eq_nil_of_le hlen]

theorem get_absent {st : State} {S : Addr} {k : CStr} {t : RpcTypes} {output : List UInt8}
    (hk : st.entry S k = none) : rpcStructGet st S k t output = (1, output) := by
  unfold rpcStructGet rpcStructGetInternal
  rw [hk]
  exact if_neg fun h => h.1 rfl

/-! ## Widening -/

/-- The four bytes of a finite, normal float. -/
structure NormalFloat (f : List UInt8) : Prop where
  length : f.length = 4
  normal : 0 < ofLE f / 2 ^ 23 % 2 ^ 8
  finite : ofLE f / 2 ^ 23 % 2 ^ 8 < 255

theorem widenFloat_normal {x : Nat} (hn : 0 < x / 2 ^ 23 % 2 ^ 8) (hf : x / 2 ^ 23 % 2 ^ 8 < 255) :
    widenFloat x = x / 2 ^ 31 % 2 * 2 ^ 63 + (x / 2 ^ 23 % 2 ^ 8 + 896) * 2 ^ 52 +
      x % 2 ^ 23 * 2 ^ 29 := by
  unfold widenFloat
  rw [if_neg (by omega), if_neg (by omega)]

theorem widenFloat_lt {x : Nat} (hn : 0 < x / 2 ^ 23 % 2 ^ 8) (hf : x / 2 ^ 23 % 2 ^ 8 < 255) :
    widenFloat x < 256 ^ 8 := by
  have hwide := widenFloat_normal hn hf
  omega

/-- The low half of the double. -/
theorem widenFloat_low {x : Nat} (hn : 0 < x / 2 ^ 23 % 2 ^ 8) (hf : x / 2 ^ 23 % 2 ^ 8 < 255) :
    widenFloat x % 256 ^ 4 = x % 8 * 2 ^ 29 := by
  have hwide := widenFloat_normal hn hf
  omega

theorem serializeReal_normal {f : List UInt8} (h : NormalFloat f) :
    serializeReal f = some (.real (toLE 8 (widenFloat (ofLE f)))) := by
  have hwide := widenFloat_normal h.normal h.finite
  have hlt := h.finite
  have hfinite : doubleFinite (toLE 8 (widenFloat (ofLE f))) = true := by
    unfold doubleFinite
    rw [ofLE_toLE (widenFloat_lt h.normal h.finite)]
    have hexp : widenFloat (ofLE f) / 2 ^ 52 % 2 ^ 11 = ofLE f / 2 ^ 23 % 2 ^ 8 + 896 := by omega
    rw [hexp, decide_eq_true_eq]
    omega
  unfold serializeReal
  simp only [h.length, if_true]
  rw [if_pos hfinite]

/-- A normal float is not the low half of its double. -/
theorem low_half_ne {f : List UInt8} (h : NormalFloat f) :
    (toLE 8 (widenFloat (ofLE f))).take 4 ≠ f := by
  intro heq
  have hlow := widenFloat_low h.normal h.finite
  have hread : ofLE ((toLE 8 (widenFloat (ofLE f))).take 4) = widenFloat (ofLE f) % 256 ^ 4 := by
    rw [take_toLE (by decide), ofLE_toLE_mod]
  rw [heq, hlow] at hread
  have hn := h.normal
  omega

/-! ## The sender -/

section Send
variable {E : Env} {utf8 : CStr → Bool}

/-- The main loop leaves the fields of other keys, and adds none that is not UTF-8. -/
theorem serializeField_other {rec : State → Addr → Except Fault (State × Json)} {d : Addr} {k : CStr}
    {keys : List CStr} (hk : k ∉ keys ∨ utf8 k = false) {x x' : State × List (CStr × Json)}
    (hok : keys.foldlM (serializeField utf8 rec d) x = .ok x') : x'.2.lookup k = x.2.lookup k := by
  induction keys generalizing x with
  | nil =>
    cases hok
    rfl
  | cons key keys ih =>
    rw [List.foldlM_cons] at hok
    obtain ⟨x1, hturn, hok⟩ := bind_eq_ok.1 hok
    rw [ih (hk.imp_left fun h hin => h (List.mem_cons_of_mem _ hin)) hok]
    obtain ⟨r, -, hr⟩ := bind_eq_ok.1 hturn
    cases hr
    rw [Json.lookup_setNew, if_neg]
    intro hset
    rcases hk with hk | hk
    · exact hk (hset.1 ▸ List.mem_cons_self)
    · rw [← hset.1, hk] at hset
      cases hset.2.1

theorem lookup_duplicateFields {k : CStr} (hutf : utf8 k = false) (dups : List DupInfo) :
    (dups.foldl (duplicateFields utf8) []).lookup k = none := by
  have hgroup : ∀ (keys : List CStr) (v : Option Json) (fs : List (CStr × Json)),
      fs.lookup k = none →
        (keys.foldl (fun fs key => Json.setNew utf8 fs key v) fs).lookup k = none := by
    intro keys v
    induction keys with
    | nil => exact fun fs h => h
    | cons key keys ih =>
      intro fs h
      rw [List.foldl_cons]
      refine ih _ ?_
      rw [Json.lookup_setNew, if_neg, h]
      intro hkey
      rw [← hkey.1, hutf] at hkey
      cases hkey.2.1
  have hall : ∀ fs : List (CStr × Json), fs.lookup k = none →
      (dups.foldl (duplicateFields utf8) fs).lookup k = none := by
    induction dups with
    | nil => exact fun fs h => h
    | cons g dups ih => exact fun fs h => ih _ (hgroup g.duplicates _ fs h)
  exact hall [] rfl

/-- A real is sent under its key. -/
theorem real_sent {args : ArgOrder} {st st' : State} (h : (fullApi args).Reachable st)
    (hascii : AsciiValid utf8) {S : Addr} {k : CStr} {f : List UInt8}
    (hk : st.entry S k = some (.real f)) {j : Json} (hser : Serializes E utf8 st S st' j) :
    ∃ ser dup, Root j ser dup ∧ (utf8 k = true → ser.lookup k = serializeReal f) ∧
      (utf8 k = false → ser.lookup k = none ∧ dup.lookup k = none) := by
  have hwf := (fullApi_inv h).wf
  obtain ⟨n, hok⟩ := hser
  cases n with
  | zero => cases hok
  | succ n =>
    obtain ⟨s, hs, hks⟩ := entry_eq_some.1 hk
    obtain ⟨st1, d, -, -, hfail, hgo⟩ := serialize_prepared E utf8 hwf.inv hwf.stored
      (fun p hp => absurd hp (Finset.notMem_empty p)) hs n
    cases hdups : rpcStructFoundDuplicates E st1 S with
    | error e =>
      rw [hfail e hdups] at hok
      cases hok
    | ok dups =>
      obtain ⟨st3, keys, hp, hrun⟩ := hgo dups hdups
      rw [hrun] at hok
      obtain ⟨r1, hloop, hroot⟩ := bind_eq_ok.1 hok
      obtain ⟨st5, -, hroot⟩ := bind_eq_ok.1 hroot
      cases hroot
      -- `k` holds no object, so it is in no group
      have hgroup : ∀ g ∈ dups, k ∉ g.duplicates := by
        intro g hg hin
        obtain ⟨p, hheld⟩ := hp.groups.held g hg
        have hheld := hheld.2 k hin
        rw [RpcStruct.holds, hks] at hheld
        cases hheld
      have hmem : k ∈ keys := (hp.keys k).2 (hp.all k _ hks (fun hc => by cases hc) hgroup)
      have hascii := root_setNew hascii (Json.string utf8 (rpcStructIdGet st3 S)) r1.2
        (dups.foldl (duplicateFields utf8) [])
      refine ⟨r1.2, _, hascii, fun hutf => ?_, fun hutf => ⟨?_, lookup_duplicateFields hutf dups⟩⟩
      · obtain ⟨as, bs, acc, acc', hkeys, has, hturn, hrest⟩ := foldlM_ok_mem hloop hmem
        subst hkeys
        obtain ⟨-, hnodup, hdisjoint⟩ := List.nodup_append.1 hp.nodup
        have hbs : k ∉ bs := (List.nodup_cons.1 hnodup).1
        have has' : k ∉ as := fun hin => hdisjoint k hin k List.mem_cons_self rfl
        obtain ⟨extra', -, -, hnext⟩ := hp.before hwf.inv hwf.stored
          (fun p hp => absurd hp (Finset.notMem_empty p)) (.refl ∅ st) hs (fun _ => rfl) has
        obtain ⟨e0, he0, hv⟩ := hnext k List.mem_cons_self
        rw [hk] at he0
        cases he0
        have hget : rpcStructGetInternal acc.1 d k = .real f := hv
        rw [serializeField_other (.inl hbs) hrest]
        unfold serializeField at hturn
        rw [hget] at hturn
        cases hturn
        have hnone : acc.2.lookup k = none :=
          serializeField_other (x := (st3, [])) (.inl has') has
        rw [Json.lookup_setNew, hnone]
        cases serializeReal f <;> simp [hutf]
      · rw [serializeField_other (.inr hutf) hloop]
        rfl

end Send

/-! ## The receiver -/

section Receive
variable {E : Env} {st st' : State} {S : Addr} {s : RpcStruct} {k key : CStr}

/-- An insertion leaves the entries of other keys, and those that are set. -/
theorem setInternal_entry {e : RpcTypeT} (hs : st.struct? S = some s)
    (hk : k ≠ key ∨ ∃ d, s.map.lookup k = some d)
    (hok : Prod.fst <$> rpcStructSetInternal E st S key e = .ok st') :
    ∃ s', st'.struct? S = some s' ∧ s'.map.lookup k = s.map.lookup k := by
  obtain ⟨ret, hok⟩ := map_fst_eq_ok hok
  simp only [rpcStructSetInternal, hs] at hok
  split at hok
  · cases hok
    exact ⟨s, hs, rfl⟩
  · split at hok
    · cases hok
      exact ⟨s, hs, rfl⟩
    · rename_i hfree
      cases hok
      refine ⟨_, by rw [struct?_setObj_struct, if_pos rfl], ?_⟩
      have hne : k ≠ key := by
        rcases hk with hk | hk
        · exact hk
        · obtain ⟨d, hd⟩ := hk
          intro hkk
          rw [hkk, hfree] at hd
          cases hd
      rw [Table.lookup_insert_if, if_neg hne]

theorem itemParse_entry {n : Nat} {item : Json} (hitem : Emitted item) (hs : st.struct? S = some s)
    (hk : k ≠ key ∨ ∃ d, s.map.lookup k = some d) (hok : itemParse E n st S key item = .ok st') :
    ∃ s', st'.struct? S = some s' ∧ s'.map.lookup k = s.map.lookup k := by
  cases n with
  | zero =>
    unfold itemParse at hok
    cases hok
  | succ n =>
    obtain ⟨value, hset, hvalue⟩ := itemParse_setWith hitem E n st S key
    rw [hset] at hok
    unfold setWith at hok
    split at hok
    · cases hok
      exact ⟨s, hs, rfl⟩
    · obtain ⟨r, hr, hok⟩ := bind_eq_ok.1 hok
      obtain ⟨s1, hs1, -, hmap⟩ := (hvalue r hr).1.struct (Set.notMem_empty S) hs
      obtain ⟨s', hs', hk'⟩ := setInternal_entry hs1 (by rw [hmap]; exact hk) hok
      exact ⟨s', hs', hk'.trans (hmap k)⟩

theorem itemParse_real {n : Nat} {bits : List UInt8} (hs : st.struct? S = some s)
    (hk : s.map.lookup k = none) (hok : itemParse E n st S k (.real bits) = .ok st') :
    ∃ s', st'.struct? S = some s' ∧ s'.map.lookup k = some (.real bits) := by
  cases n with
  | zero =>
    unfold itemParse at hok
    cases hok
  | succ n =>
    have hfree : ¬ rpcStructExists st S k = true := by
      rw [rpcStructExists, rpcStructGetInternal, entry_of_struct hs, hk]
      decide
    unfold itemParse at hok
    have hok : setWith E st S k (fun st => .ok (st, .real bits)) = .ok st' := hok
    rw [setWith, if_neg hfree] at hok
    obtain ⟨r, hr, hok⟩ := bind_eq_ok.1 hok
    cases hr
    have hset := setInternal_fresh (E := E) (e := .real bits) hs hk fun hty => by cases hty
    simp only [hset] at hok
    cases hok
    refine ⟨_, by rw [struct?_setObj_struct, if_pos rfl], ?_⟩
    rw [Table.lookup_insert_if, if_pos rfl]
    rfl

/-- Further items leave an entry that is set. -/
theorem items_kept {n : Nat} {ser : List (CStr × Json)} (hser : ∀ f ∈ ser, Emitted f.2)
    (hs : st.struct? S = some s) {d : RpcTypeT} (hk : s.map.lookup k = some d)
    (hok : ser.foldlM (fun st f => itemParse E n st S f.1 f.2) st = .ok st') :
    ∃ s', st'.struct? S = some s' ∧ s'.map.lookup k = some d := by
  refine foldlM_ok_of_mem (fun st => ∃ s, st.struct? S = some s ∧ s.map.lookup k = some d) ser st st'
    (fun st1 f st2 hf hI hturn => ?_) ⟨s, hs, hk⟩ hok
  obtain ⟨s1, hs1, hk1⟩ := hI
  obtain ⟨s2, hs2, hk2⟩ := itemParse_entry (hser f hf) hs1 (.inr ⟨d, hk1⟩) hturn
  exact ⟨s2, hs2, hk2.trans hk1⟩

/-- What the loop over the items leaves under a key that was free and is sent as a real, or
not at all. -/
theorem items_entry {n : Nat} {ser : List (CStr × Json)} (hser : ∀ f ∈ ser, Emitted f.2)
    {bits : Option (List UInt8)} (hbits : ser.lookup k = bits.map .real)
    (hs : st.struct? S = some s) (hk : s.map.lookup k = none)
    (hok : ser.foldlM (fun st f => itemParse E n st S f.1 f.2) st = .ok st') :
    ∃ s', st'.struct? S = some s' ∧ s'.map.lookup k = bits.map .real := by
  induction ser generalizing st s with
  | nil =>
    cases hok
    cases bits with
    | none => exact ⟨s, hs, hk⟩
    | some bits => cases hbits
  | cons f ser ih =>
    rw [List.foldlM_cons] at hok
    obtain ⟨st1, hturn, hok⟩ := bind_eq_ok.1 hok
    have hrest : ∀ g ∈ ser, Emitted g.2 := fun g hg => hser g (List.mem_cons_of_mem _ hg)
    rw [List.lookup_cons] at hbits
    by_cases hkf : k = f.1
    · rw [beq_iff_eq.2 hkf] at hbits
      cases bits with
      | none => cases hbits
      | some bits =>
        -- the first item under the key is the one that counts
        rw [← hkf, Option.some.inj hbits] at hturn
        obtain ⟨s1, hs1, hk1⟩ := itemParse_real hs hk hturn
        exact items_kept hrest hs1 hk1 hok
    · rw [beq_eq_false_iff_ne.2 hkf] at hbits
      obtain ⟨s1, hs1, hk1⟩ := itemParse_entry (hser f List.mem_cons_self) hs (.inl hkf) hturn
      exact ih hrest hbits hs1 (hk1.trans hk) hok

/-- The aliases leave an entry that is set, and one that is no alias. -/
theorem aliases_entry {dup : List (CStr × Json)} (hs : st.struct? S = some s)
    (hk : dup.lookup k = none ∨ ∃ d, s.map.lookup k = some d)
    (hok : dup.foldlM (relink E S) st = .ok st') :
    ∃ s', st'.struct? S = some s' ∧ s'.map.lookup k = s.map.lookup k := by
  refine foldlM_ok_of_mem (fun st => ∃ s', st.struct? S = some s' ∧ s'.map.lookup k = s.map.lookup k)
    dup st st' (fun st1 f st2 hf hI hturn => ?_) ⟨s, hs, rfl⟩ hok
  obtain ⟨s1, hs1, hk1⟩ := hI
  have hother : k ≠ f.1 ∨ ∃ d, s1.map.lookup k = some d := by
    rw [hk1]
    exact hk.imp_left fun hk => bne_iff_ne.1 (List.lookup_eq_none_iff.1 hk f hf)
  obtain ⟨s2, hs2, hk2⟩ := setInternal_entry hs1 hother hturn
  exact ⟨s2, hs2, hk2.trans hk1⟩

/-- A real that is sent is received under its key, and one that is not is not. -/
theorem real_received {j : Json} {ser dup : List (CStr × Json)} (hroot : Root j ser dup)
    (hser : ∀ f ∈ ser, Emitted f.2) (bits : Option (List UInt8))
    (hbits : ser.lookup k = bits.map .real) (hdup : bits = none → dup.lookup k = none) {T : Addr}
    (hok : rpcStructDeserialize E st (some j) = .ok (st', T)) :
    st'.entry T k = bits.map .real := by
  rw [rpcStructDeserialize, show decodeFuel j = 2 * j.depth + 1 from rfl, structDeserialize_eq] at hok
  obtain ⟨st1, hid, hok⟩ := bind_eq_ok.1 hok
  have hst1 := (idPhase_spec E st j).of_ok hid
  subst hst1
  simp only [parsePhase, hroot.type, Json.stringValue, if_pos, hroot.serialised,
    hroot.duplicates, Option.map_some, Option.getD_some, Json.fields] at hok
  obtain ⟨st3, hparse, hok⟩ := bind_eq_ok.1 hok
  obtain ⟨st4, hlink, hok⟩ := bind_eq_ok.1 hok
  cases hok
  have hs1 : (started E st (idField E st j)).struct? (E.malloc st) = some ⟨∅, idField E st j, 0⟩ := by
    rw [started, struct?_setObj_struct, if_pos rfl]
  obtain ⟨s3, hs3, hk3⟩ := items_entry hser hbits hs1 rfl hparse
  obtain ⟨s4, hs4, hk4⟩ := aliases_entry (k := k) hs3 (by
    cases bits with
    | none => exact .inl (hdup rfl)
    | some bits => exact .inr ⟨_, hk3⟩) hlink
  rw [entry_of_struct hs4, hk4, hk3]

end Receive

/-! ## Both ways -/

/-- Without a wire a normal float is read as it was stored; over the wire it never is. -/
theorem float_not_kept {args : ArgOrder} {st : State} (h : (fullApi args).Reachable st)
    {utf8 : CStr → Bool} (hascii : AsciiValid utf8) {S : Addr} {k : CStr} {f : List UInt8}
    (hk : st.entry S k = some (.real f)) (hf : NormalFloat f) {E : Env} {st' : State} {j : Json}
    (hser : Serializes E utf8 st S st' j) {E' : Env} {r r' : State} {T : Addr}
    (hdes : rpcStructDeserialize E' r (some j) = .ok (r', T)) {output : List UInt8}
    (hout : output.length = 4) :
    rpcStructGet st S k .real output = (0, f) ∧
    (utf8 k = true →
      rpcStructGet r' T k .real output = (0, toLE 4 (ofLE f % 8 * 2 ^ 29))) ∧
    rpcStructGet r' T k .real output ≠ (0, f) := by
  have hstored : rpcStructGet st S k .real output = (0, f) := by
    rw [get_real hk (by rw [hout, hf.length]), hout, ← hf.length, List.take_length]
  obtain ⟨ser, dup, hroot, hsent, hlost⟩ := real_sent h hascii hk hser
  have hemitted : ∀ f ∈ ser, Emitted f.2 := by
    obtain ⟨n, hser⟩ := hser
    obtain ⟨fs, ser', dup', rfl, hroot', hser'⟩ := serialize_emitted hascii n _ _ _ _ hser
    cases hroot.serialised.symm.trans hroot'.serialised
    exact hser'
  cases hutf : utf8 k with
  | false =>
    obtain ⟨hnone, hdup⟩ := hlost hutf
    have hno : r'.entry T k = none :=
      real_received hroot hemitted none hnone (fun _ => hdup) hdes
    refine ⟨hstored, nofun, ?_⟩
    rw [get_absent hno]
    nofun
  | true =>
    have hreal := (hsent hutf).trans (serializeReal_normal hf)
    have hentry : r'.entry T k = some (.real (toLE 8 (widenFloat (ofLE f)))) :=
      real_received hroot hemitted (some _) hreal nofun hdes
    have hget := get_real hentry (show output.length ≤ _ by rw [hout, length_toLE]; decide)
    rw [hout] at hget
    refine ⟨hstored, fun _ => ?_, fun heq => ?_⟩
    · rw [hget, take_toLE (by decide), ← toLE_mod, widenFloat_low hf.normal hf.finite]
    · rw [hget] at heq
      exact low_half_ne hf (congrArg Prod.snd heq)

/-- The float 1. -/
theorem float_not_kept_one : ∃ st j r' T, st.entry 1 [107] = some (.real [0, 0, 128, 63]) ∧
    rpcStructDeserialize .bump .empty (some j) = .ok (r', T) ∧
    rpcStructGet st 1 [107] .real [0, 0, 0, 0] = (0, [0, 0, 128, 63]) ∧
    rpcStructGet r' T [107] .real [0, 0, 0, 0] ≠ (0, [0, 0, 128, 63]) := by
  obtain ⟨st, hb⟩ : ∃ st, build .bump .empty [.structCreate,
    .set 1 [107] (.real [0, 0, 128, 63])] = some st := ⟨_, rfl⟩
  have h : (fullApi .getbufFirst).Reachable st := build_full (.init rfl) hb
  have hk : st.entry 1 [107] = some (.real [0, 0, 128, 63]) := by
    cases hb
    rfl
  obtain ⟨st', j, r', T, hser, hdes⟩ : ∃ st' j r' T,
      rpcStructSerialize .bump (fun _ => true) 1 st 1 = .ok (st', j) ∧
      rpcStructDeserialize .bump .empty (some j) = .ok (r', T) := by
    cases hb
    exact ⟨_, _, _, _, rfl, rfl⟩
  obtain ⟨hstored, -, hlost⟩ := float_not_kept h (fun _ _ => rfl) hk
    ⟨rfl, by decide +kernel, by decide +kernel⟩ ⟨1, hser⟩ hdes
    (show [0, 0, 0, 0].length = 4 from rfl)
  exact ⟨st, j, r', T, hk, hdes, hstored, hlost⟩

/-- The float 1 comes back as 0. -/
theorem float_one_lost : ∃ st st' j r' T, (fullApi .getbufFirst).Reachable st ∧
    rpcStructGet st 1 [107] .real [0, 0, 0, 0] = (0, [0, 0, 128, 63]) ∧
    rpcStructSerialize .bump (fun _ => true) 1 st 1 = .ok (st', j) ∧
    rpcStructDeserialize .bump .empty (some j) = .ok (r', T) ∧
    rpcStructGet r' T [107] .real [0, 0, 0, 0] = (0, [0, 0, 0, 0]) := by
  obtain ⟨st, hb⟩ : ∃ st, build .bump .empty [.structCreate,
    .set 1 [107] (.real [0, 0, 128, 63])] = some st := ⟨_, rfl⟩
  have h : (fullApi .getbufFirst).Reachable st := build_full (.init rfl) hb
  cases hb
  exact ⟨_, _, _, _, _, h, rfl, rfl, rfl, rfl⟩

end FfiRpc
