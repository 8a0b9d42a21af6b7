import Mathlib.Data.List.DropRight
import Mathlib.Tactic.Common

/-!
# Bounded channels

A queue of at most `capacity` items. Sending to a full channel and receiving from an empty one fail at once.
-/

namespace MqBridge

structure Channel (α : Type) where
  capacity : Nat
  items : List α
  bounded : items.length ≤ capacity

namespace Channel
variable {α : Type}

def empty (capacity : Nat) : Channel α := ⟨capacity, [], Nat.zero_le _⟩

def trySend (channel : Channel α) (item : α) : Option (Channel α) :=
  if room : channel.items.length < channel.capacity then
    some ⟨channel.capacity, channel.items ++ [item], List.length_append ▸ room⟩
  else none

/-- The item that was sent first among those that are there. -/
def tryRecv (channel : Channel α) : Option (α × Channel α) :=
  match channel with
  | ⟨_, [], _⟩ => none
  | ⟨capacity, item :: rest, bounded⟩ => some (item, ⟨capacity, rest, Nat.le_of_succ_le bounded⟩)

/-- Sends an item, in the place of the first one when the channel is full. -/
def sendLast (channel : Channel α) (item : α) : Channel α :=
  match channel.trySend item with
  | some sent => sent
  | none =>
    let room := (channel.tryRecv.map Prod.snd).getD channel
    (room.trySend item).getD room

/-- Receives until nothing is there. -/
def drain (channel : Channel α) : List α × Channel α := (channel.items, ⟨channel.capacity, [], Nat.zero_le _⟩)

variable {channel after : Channel α} {item : α}

theorem trySend_some (sent : channel.trySend item = some after) : channel.items.length < channel.capacity ∧
    after.capacity = channel.capacity ∧ after.items = channel.items ++ [item] := by
  unfold trySend at sent
  split at sent
  · next room =>
    obtain rfl := Option.some.inj sent
    exact ⟨room, rfl, rfl⟩
  · cases sent

theorem trySend_none (failed : channel.trySend item = none) : channel.items.length = channel.capacity := by
  unfold trySend at failed
  split at failed
  · cases failed
  · next full => exact Nat.le_antisymm channel.bounded (Nat.le_of_not_lt full)

theorem tryRecv_some (received : channel.tryRecv = some (item, after)) :
    after.capacity = channel.capacity ∧ channel.items = item :: after.items := by
  obtain ⟨capacity, items, bounded⟩ := channel
  cases items with
  | nil => cases received
  | cons first rest =>
    obtain ⟨rfl, rfl⟩ := Prod.mk.inj (Option.some.inj received)
    exact ⟨rfl, rfl⟩

theorem tryRecv_none (failed : channel.tryRecv = none) : channel.items = [] := by
  obtain ⟨capacity, items, bounded⟩ := channel
  cases items with
  | nil => rfl
  | cons first rest => cases failed

theorem sendLast_full {oldest : α} {rest : List α} (full : channel.items.length = channel.capacity)
    (items : channel.items = oldest :: rest) :
    (channel.sendLast item).capacity = channel.capacity ∧ (channel.sendLast item).items = rest ++ [item] := by
  obtain ⟨capacity, held, bounded⟩ := channel
  obtain rfl : held = oldest :: rest := items
  have full : rest.length + 1 = capacity := full
  unfold sendLast trySend tryRecv
  dsimp only
  rw [dif_neg (by simp only [List.length_cons]; omega)]
  simp only [Option.map_some, Option.getD_some]
  rw [dif_pos (by omega)]
  exact ⟨rfl, rfl⟩

theorem sendLast_room (room : channel.items.length < channel.capacity) :
    (channel.sendLast item).capacity = channel.capacity ∧ (channel.sendLast item).items = channel.items ++ [item] := by
  unfold sendLast trySend
  rw [dif_pos room]
  exact ⟨rfl, rfl⟩

theorem sendLast_capacity (channel : Channel α) (item : α) : (channel.sendLast item).capacity = channel.capacity := by
  by_cases room : channel.items.length < channel.capacity
  · exact (sendLast_room room).1
  · have full : channel.items.length = channel.capacity := Nat.le_antisymm channel.bounded (Nat.le_of_not_lt room)
    cases items : channel.items with
    | nil =>
      have nothing : channel.capacity = 0 := by rw [← full, items, List.length_nil]
      obtain ⟨capacity, held, bounded⟩ := channel
      obtain rfl : held = [] := items
      obtain rfl : capacity = 0 := nothing
      rfl
    | cons oldest rest => exact (sendLast_full full items).1

/-- A channel that takes what is sent last holds the last items. -/
theorem sendLast_items (positive : 0 < channel.capacity) {sent : List α}
    (held : channel.items = sent.rtake channel.capacity) :
    (channel.sendLast item).items = (sent ++ [item]).rtake channel.capacity := by
  have step : ∀ n, 0 < n → (sent ++ [item]).rtake n = sent.rtake (n - 1) ++ [item] := by
    intro n positive
    obtain ⟨m, rfl⟩ := Nat.exists_eq_succ_of_ne_zero positive.ne'
    exact List.rtake_concat_succ _ _ _
  rw [step _ positive]
  by_cases room : channel.items.length < channel.capacity
  · have all : sent.length < channel.capacity := by
      rw [held, List.rtake, List.length_drop] at room
      omega
    rw [(sendLast_room room).2, held]
    unfold List.rtake
    rw [Nat.sub_eq_zero_of_le (by omega), Nat.sub_eq_zero_of_le (by omega)]
  · have full : channel.items.length = channel.capacity := Nat.le_antisymm channel.bounded (Nat.le_of_not_lt room)
    have enough : channel.capacity ≤ sent.length := by
      rw [held, List.rtake, List.length_drop] at full
      omega
    have fewer : sent.rtake (channel.capacity - 1) = channel.items.drop 1 := by
      rw [held]
      unfold List.rtake
      rw [List.drop_drop]
      congr 1
      omega
    cases items : channel.items with
    | nil =>
      rw [items, List.length_nil] at full
      omega
    | cons oldest rest =>
      rw [(sendLast_full full items).2, fewer, items]
      rfl

end Channel

end MqBridge
