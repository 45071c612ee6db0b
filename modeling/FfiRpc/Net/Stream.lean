import Mathlib.Data.PNat.Basic
import FfiRpc.Core.Bytes
import FfiRpc.Wire.Json

/-!
# Messages over a byte stream

`rpc_net_send_json` writes a message as two `send`s, the length in 8 bytes and
the text; `rpc_net_recv_json` reads it back with two `recv`s, each made once
(rpc_network.c:176-206). The connection is the list of bytes written and not yet
read. A `recv` returns a non-empty prefix of it, at most as long as asked for;
how many bytes are there when the call is made is up to the transport and is an
argument (`ready`).

`json_dumps` and `json_loadb` are parameters (`Jansson`).

`recv_messages_iff`: the messages come out exactly when no `recv` was offered
less than it asked for.
-/
namespace FfiRpc

/-- `json_dumps` with `JSON_COMPACT` (`none` for `NULL`) and `json_loadb` with
`JSON_DISABLE_EOF_CHECK`. -/
structure Jansson where
  dumps : Json → Option (List UInt8)
  loadb : List UInt8 → Option Json

/-- The bytes of one message. -/
def frame (text : List UInt8) : List UInt8 := toLE 8 text.length ++ text

/-- `send`: the kernel takes `took` of the bytes; what it took and the stream. -/
def send (took : Nat) (buf out : List UInt8) : Nat × List UInt8 :=
  (min took buf.length, out ++ buf.take took)

/-- `recv` of at most `ask` bytes when `ready` are there: the bytes and the rest
of the stream. -/
def recv (ready : ℕ+) (ask : Nat) (stream : List UInt8) : List UInt8 × List UInt8 :=
  stream.splitAt (min ask ready)

section
variable (J : Jansson) (malloc : Nat → Bool)

/-- rpc_network.c:176-189 -/
def rpcNetSendJson (took : Nat × Nat) (out : List UInt8) (json : Json) : Nat × List UInt8 :=
  match J.dumps json with
  | none => (1, out)
  | some sendString =>
    let sendLen := sendString.length
    let (n, out) := send took.1 (toLE 8 sendLen) out
    if n ≠ 8 then (1, out)
    else
      let (n, out) := send took.2 sendString out
      if n ≠ sendLen then (1, out) else (0, out)

/-- `malloc n`: whether there is memory for `n` bytes.
rpc_network.c:190-206 -/
def rpcNetRecvJson (ready : ℕ+ × ℕ+) (stream : List UInt8) : Option Json × List UInt8 :=
  let (lenBytes, stream) := recv ready.1 8 stream
  if lenBytes.length ≠ 8 then (none, stream)
  else
    let recvLen := ofLE lenBytes
    if !malloc recvLen then (none, stream)
    else
      let (recvBuf, stream) := recv ready.2 recvLen stream
      if recvBuf.length ≠ recvLen then (none, stream) else (J.loadb recvBuf, stream)

/-- One call of `rpc_net_send_json` for each message: what the calls returned
and the stream. -/
def sendMessages : List (Json × (Nat × Nat)) → List UInt8 → List Nat × List UInt8
  | [], out => ([], out)
  | (json, took) :: ms, out =>
    let (ret, out) := rpcNetSendJson J took out json
    let (rets, out) := sendMessages ms out
    (ret :: rets, out)

/-- One call of `rpc_net_recv_json` for each element of `pieces`. -/
def recvMessages : List (ℕ+ × ℕ+) → List UInt8 → List (Option Json)
  | [], _ => []
  | ready :: rs, stream =>
    let (json, stream) := rpcNetRecvJson J malloc ready stream
    json :: recvMessages rs stream

end

section
variable {J : Jansson} {malloc : Nat → Bool}

theorem recv_whole {ready : ℕ+} {s : List UInt8} (h : s.length ≤ ready) (t : List UInt8) :
    recv ready s.length (s ++ t) = (s, t) := by
  rw [recv, List.splitAt_eq, Nat.min_eq_left h, List.take_left, List.drop_left]

theorem recv_cut {ready : ℕ+} {s : List UInt8} (h : (ready : Nat) < s.length) (t : List UInt8) :
    (recv ready s.length (s ++ t)).1.length ≠ s.length := by
  rw [recv, List.splitAt_eq, List.length_take, List.length_append]
  omega

/-- A message that was written is written whole. -/
theorem sendJson_spec {took : Nat × Nat} {out : List UInt8} {json : Json}
    (h : (rpcNetSendJson J took out json).1 = 0) :
    ∃ text, J.dumps json = some text ∧ (rpcNetSendJson J took out json).2 = out ++ frame text := by
  unfold rpcNetSendJson at h ⊢
  cases ht : J.dumps json with
  | none => rw [ht] at h; cases h
  | some text =>
    refine ⟨text, rfl, ?_⟩
    simp only [ht, send, length_toLE] at h ⊢
    split at h
    · cases h
    · rename_i h8
      split at h
      · cases h
      · rename_i hlen
        have htake8 : (toLE 8 text.length).take took.1 = toLE 8 text.length :=
          List.take_of_length_le (by rw [length_toLE]; omega)
        have htake : text.take took.2 = text := List.take_of_length_le (by omega)
        rw [if_neg h8, if_neg hlen, htake8, htake, frame, List.append_assoc]

/-- What the transport must have ready for a message's two `recv`s. -/
def Whole (J : Jansson) (json : Json) (ready : ℕ+ × ℕ+) : Prop :=
  8 ≤ (ready.1 : Nat) ∧ ∀ text, J.dumps json = some text → text.length ≤ ready.2

section
variable {json : Json} {text : List UInt8} {ready : ℕ+ × ℕ+}

theorem ofLE_length (hlen : text.length < 2 ^ 64) : ofLE (toLE 8 text.length) = text.length :=
  ofLE_toLE (lt_of_lt_of_le hlen (by norm_num))

/-- A stream that starts with a frame, its message read. -/
theorem recvJson_whole (htext : J.dumps json = some text) (hload : J.loadb text = some json)
    (hlen : text.length < 2 ^ 64) (hmem : malloc text.length = true) (h : Whole J json ready)
    (rest : List UInt8) :
    rpcNetRecvJson J malloc ready (frame text ++ rest) = (some json, rest) := by
  have h1 := recv_whole (s := toLE 8 text.length) (by rw [length_toLE]; exact h.1) (text ++ rest)
  have h2 := recv_whole (h.2 text htext) rest
  rw [length_toLE] at h1
  simp [rpcNetRecvJson, frame, h1, ofLE_length hlen, hmem, h2, hload]

/-- The same stream with a `recv` that returns too little: a failure. -/
theorem recvJson_cut (htext : J.dumps json = some text) (hlen : text.length < 2 ^ 64)
    (hmem : malloc text.length = true) (h : ¬ Whole J json ready) (rest : List UInt8) :
    (rpcNetRecvJson J malloc ready (frame text ++ rest)).1 = none := by
  by_cases h8 : 8 ≤ (ready.1 : Nat)
  · have h1 := recv_whole (s := toLE 8 text.length) (by rwa [length_toLE]) (text ++ rest)
    have hlt : (ready.2 : Nat) < text.length := by
      by_contra hge
      refine h ⟨h8, fun text' htext' => ?_⟩
      rw [htext] at htext'
      cases htext'
      omega
    have h2 := recv_cut hlt rest
    rw [length_toLE] at h1
    simp [rpcNetRecvJson, frame, h1, ofLE_length hlen, hmem, h2]
  · have hlt : (ready.1 : Nat) < (toLE 8 text.length).length := by
      rw [length_toLE]
      omega
    have h1 := recv_cut hlt (text ++ rest)
    rw [length_toLE] at h1
    simp [rpcNetRecvJson, frame, h1]

end

/-! ## The messages of a connection -/

/-- Messages that were all written make a stream of frames. -/
theorem sendMessages_spec (msgs : List (Json × (Nat × Nat))) (out : List UInt8)
    (h : ∀ ret ∈ (sendMessages J msgs out).1, ret = 0) :
    ∃ texts, List.Forall₂ (fun m text => J.dumps m.1 = some text) msgs texts ∧
      (sendMessages J msgs out).2 = out ++ texts.flatMap frame := by
  induction msgs generalizing out with
  | nil => exact ⟨[], .nil, by simp [sendMessages]⟩
  | cons m ms ih =>
    obtain ⟨json, took⟩ := m
    simp only [sendMessages, List.forall_mem_cons] at h
    obtain ⟨text, htext, hout⟩ := sendJson_spec h.1
    obtain ⟨texts, hall, hrest⟩ := ih _ h.2
    refine ⟨text :: texts, .cons htext hall, ?_⟩
    calc (sendMessages J ((json, took) :: ms) out).2
        = (sendMessages J ms (rpcNetSendJson J took out json).2).2 := rfl
      _ = out ++ frame text ++ texts.flatMap frame := by rw [hrest, hout]
      _ = out ++ (text :: texts).flatMap frame := by rw [List.flatMap_cons, List.append_assoc]

/-- `n` calls on a stream of frames. -/
theorem recvMessages_frames {msgs : List (Json × (Nat × Nat))} {texts : List (List UInt8)}
    (htexts : List.Forall₂ (fun m text => J.dumps m.1 = some text) msgs texts)
    (hload : ∀ m ∈ msgs, ∀ text, J.dumps m.1 = some text → J.loadb text = some m.1)
    (hlen : ∀ m ∈ msgs, ∀ text, J.dumps m.1 = some text → text.length < 2 ^ 64)
    (hmem : ∀ m ∈ msgs, ∀ text, J.dumps m.1 = some text → malloc text.length = true) :
    ∀ pieces : List (ℕ+ × ℕ+), pieces.length = msgs.length →
      (recvMessages J malloc pieces (texts.flatMap frame) = msgs.map (fun m => some m.1) ↔
        List.Forall₂ (fun m ready => Whole J m.1 ready) msgs pieces) := by
  induction htexts with
  | nil =>
    intro pieces hcalls
    rw [List.eq_nil_of_length_eq_zero hcalls]
    exact ⟨fun _ => .nil, fun _ => rfl⟩
  | @cons m text ms texts htext _ ih =>
    intro pieces hcalls
    obtain ⟨ready, rs, rfl⟩ := List.exists_cons_of_length_eq_add_one hcalls
    rw [List.forall_mem_cons] at hload hlen hmem
    rw [List.forall₂_cons, List.flatMap_cons]
    simp only [recvMessages, List.map_cons, List.cons.injEq]
    by_cases hw : Whole J m.1 ready
    · -- read in step with the frames, so the rest of the calls start on the next one
      rw [recvJson_whole htext (hload.1 text htext) (hlen.1 text htext) (hmem.1 text htext) hw]
      exact and_congr ⟨fun _ => hw, fun _ => rfl⟩
        (ih hload.2 hlen.2 hmem.2 rs (Nat.succ.inj hcalls))
    · rw [recvJson_cut htext (hlen.1 text htext) (hmem.1 text htext) hw]
      exact ⟨fun h => absurd h.1 nofun, fun h => absurd h.1 hw⟩

/-- The messages are written by calls that all report success, and every text
is one `json_loadb` reads back, short enough for its length field and for
memory. They are received as they were sent exactly when each `recv` was offered
all it asked for. -/
theorem recv_messages_iff (msgs : List (Json × (Nat × Nat)))
    (hsent : ∀ ret ∈ (sendMessages J msgs []).1, ret = 0)
    (hload : ∀ m ∈ msgs, ∀ text, J.dumps m.1 = some text → J.loadb text = some m.1)
    (hlen : ∀ m ∈ msgs, ∀ text, J.dumps m.1 = some text → text.length < 2 ^ 64)
    (hmem : ∀ m ∈ msgs, ∀ text, J.dumps m.1 = some text → malloc text.length = true)
    (pieces : List (ℕ+ × ℕ+)) (hcalls : pieces.length = msgs.length) :
    recvMessages J malloc pieces (sendMessages J msgs []).2 = msgs.map (fun m => some m.1) ↔
      List.Forall₂ (fun m ready => Whole J m.1 ready) msgs pieces := by
  obtain ⟨texts, htexts, hstream⟩ := sendMessages_spec msgs [] hsent
  rw [hstream, List.nil_append]
  exact recvMessages_frames htexts hload hlen hmem pieces hcalls

end

/-- The texts of the empty object. -/
def Jansson.braces : Jansson where
  dumps
    | .obj [] => some (ascii "{}")
    | _ => none
  loadb text := if text.take 2 = ascii "{}" then some (.obj []) else none

/-- Two messages, each offered whole. -/
theorem recv_messages_iff_braces :
    recvMessages .braces (fun _ => true) [(8, 2), (10, 2)]
      (sendMessages .braces [(.obj [], (8, 2)), (.obj [], (8, 2))] []).2 =
      [some (.obj []), some (.obj [])] := by
  have hdump : ∀ m ∈ [(Json.obj [], ((8, 2) : Nat × Nat)), (.obj [], (8, 2))], ∀ text,
      Jansson.braces.dumps m.1 = some text → m.1 = .obj [] ∧ text = ascii "{}" := by
    intro m hm text htext
    have hobj : m.1 = .obj [] := by
      rcases List.mem_cons.1 hm with h | h
      · rw [h]
      · rw [List.mem_singleton.1 h]
    rw [hobj] at htext
    cases htext
    exact ⟨hobj, rfl⟩
  refine (recv_messages_iff [(.obj [], (8, 2)), (.obj [], (8, 2))] (by decide +kernel)
    (fun m hm text htext => ?_) (fun m hm text htext => ?_) (fun _ _ _ _ => rfl)
    [(8, 2), (10, 2)] rfl).2 ?_
  · obtain ⟨hobj, rfl⟩ := hdump m hm text htext
    rw [hobj]
    rfl
  · obtain ⟨-, rfl⟩ := hdump m hm text htext
    decide +kernel
  · refine .cons ⟨by decide, ?_⟩ (.cons ⟨by decide, ?_⟩ .nil)
    · intro text htext
      cases htext
      decide +kernel
    · intro text htext
      cases htext
      decide +kernel

/-- One message of ten bytes, four of them there at the first `recv`. -/
theorem recv_messages_cut :
    (sendMessages .braces [(.obj [], (8, 2))] []).1 = [0] ∧
    recvMessages .braces (fun _ => true) [(4, 6)]
      (sendMessages .braces [(.obj [], (8, 2))] []).2 = [none] := by
  refine ⟨by decide +kernel, ?_⟩
  rfl

end FfiRpc
