import FfiRpc.Core.Lists

/-!
# The arrays of the network code

Two arrays that grow in steps: the entries `fds` of a poll net, of which the first `nfds` are
polled (poll_network.c:100-104, 134-142), and `RN_persons`, which is indexed by descriptor
(rpc_network.c:117-125). What the elements are is up to the models that use them.
-/
namespace FfiRpc

abbrev Fd := Nat
abbrev Conn := Nat

/-- `RLIMIT_NOFILE` of <sys/resource.h>: the number of the limit, not its value. -/
def RLIMIT_NOFILE : Nat := 7
def MIN_POLLFD : Nat := 128
def HOLDER_MIN_ALLOC_FDS : Nat := 128

section
variable {α : Type} {fds : List α} {nfds i : Nat}

/-! ## The entries of a poll net -/

/-- The new slots are not initialised; `zero` stands for what is in them.
poll_network.c:139-142 -/
def growFds (zero : α) (fds : List α) (nfds : Nat) : List α :=
  if nfds = fds.length - 1 then fds ++ List.replicate MIN_POLLFD zero else fds

/-- `memmove(&fds[i], &fds[i + 1], nfds - (i + 1))`: the slot at `nfds - 1` keeps
its old contents. -/
def removeAt (fds : List α) (nfds i : Nat) : List α :=
  (fds.take nfds).eraseIdx i ++ fds.drop (nfds - 1)

theorem length_le_growFds (zero : α) (fds : List α) (nfds : Nat) :
    fds.length ≤ (growFds zero fds nfds).length := by
  unfold growFds
  split
  · rw [List.length_append]
    omega
  · exact Nat.le_refl _

/-- After growing there is a slot behind the last entry. -/
theorem lt_length_growFds (zero : α) (h : nfds < fds.length) :
    nfds < (growFds zero fds nfds).length :=
  Nat.lt_of_lt_of_le h (length_le_growFds zero fds nfds)

theorem getElem?_growFds (zero : α) (h : nfds < fds.length) :
    (growFds zero fds nfds)[nfds]? = fds[nfds]? := by
  unfold growFds
  split
  · exact List.getElem?_append_left h
  · rfl

theorem take_growFds (zero : α) (h : nfds < fds.length) :
    (growFds zero fds nfds).take nfds = fds.take nfds := by
  unfold growFds
  split
  · exact List.take_append_of_le_length (by omega)
  · rfl

/-- An entry written behind the last one. -/
theorem take_set_length (h : nfds < fds.length) (x : α) :
    (fds.set nfds x).take (nfds + 1) = fds.take nfds ++ [x] := by
  rw [List.take_add_one, List.take_set_of_le (Nat.le_refl _), List.getElem?_set_self h]
  rfl

theorem length_removeAt (hi : i < nfds) (hn : nfds ≤ fds.length) :
    (removeAt fds nfds i).length = fds.length := by
  have htake : (fds.take nfds).length = nfds := List.length_take_of_le hn
  rw [removeAt, List.length_append, List.length_eraseIdx_of_lt (by omega), List.length_drop, htake]
  omega

theorem take_removeAt (hi : i < nfds) (hn : nfds ≤ fds.length) :
    (removeAt fds nfds i).take (nfds - 1) = (fds.take nfds).eraseIdx i := by
  have htake : (fds.take nfds).length = nfds := List.length_take_of_le hn
  have hlen : ((fds.take nfds).eraseIdx i).length = nfds - 1 := by
    rw [List.length_eraseIdx_of_lt (by omega), htake]
  rw [removeAt, List.take_append_of_le_length (Nat.le_of_eq hlen.symm),
    List.take_of_length_le (Nat.le_of_eq hlen)]

/-! ## The table of persons -/

/-- rpc_network.c:117-125 -/
def makePersonsfdBigger (persons : List (Option α)) (upTo : Fd) : List (Option α) :=
  if persons.length ≤ upTo then persons ++ List.replicate HOLDER_MIN_ALLOC_FDS none else persons

theorem length_makePersonsfdBigger (persons : List (Option α)) (upTo : Nat) :
    (makePersonsfdBigger persons upTo).length =
      if persons.length ≤ upTo then persons.length + HOLDER_MIN_ALLOC_FDS
      else persons.length := by
  unfold makePersonsfdBigger
  split <;> simp

/-- One growth is enough for the descriptors within reach of it, and for no other. -/
theorem lt_length_makePersonsfdBigger (persons : List (Option α)) (fd : Nat) :
    fd < (makePersonsfdBigger persons fd).length ↔ fd < persons.length + HOLDER_MIN_ALLOC_FDS := by
  rw [length_makePersonsfdBigger]
  by_cases hfd : persons.length ≤ fd
  · rw [if_pos hfd]
  · rw [if_neg hfd]
    exact iff_of_true (by omega) (by omega)

/-- Growing keeps the persons, and the new slots are empty. -/
theorem makePersonsfdBigger_slot (persons : List (Option α)) (upTo i : Nat) :
    (i < persons.length → (makePersonsfdBigger persons upTo)[i]? = persons[i]?) ∧
      (persons.length ≤ i → i < (makePersonsfdBigger persons upTo).length →
        (makePersonsfdBigger persons upTo)[i]? = some none) := by
  rw [length_makePersonsfdBigger]
  unfold makePersonsfdBigger
  by_cases hto : persons.length ≤ upTo
  · simp only [if_pos hto]
    refine ⟨fun hi => List.getElem?_append_left hi, fun hi hlt => ?_⟩
    rw [List.getElem?_append_right hi, List.getElem?_replicate, if_pos (by omega)]
  · simp only [if_neg hto]
    exact ⟨fun _ => trivial, fun hi hlt => absurd hlt (Nat.not_lt.2 hi)⟩

/-- So whoever is looked up is found as before. -/
theorem join_makePersonsfdBigger (persons : List (Option α)) (upTo fd : Nat) :
    ((makePersonsfdBigger persons upTo)[fd]?).join = (persons[fd]?).join := by
  obtain ⟨hold, hnew⟩ := makePersonsfdBigger_slot persons upTo fd
  rcases Nat.lt_or_ge fd persons.length with hlt | hge
  · rw [hold hlt]
  · rw [List.getElem?_eq_none hge]
    rcases Nat.lt_or_ge fd (makePersonsfdBigger persons upTo).length with hin | hout
    · rw [hnew hge hin]
      rfl
    · rw [List.getElem?_eq_none hout]

end

end FfiRpc
