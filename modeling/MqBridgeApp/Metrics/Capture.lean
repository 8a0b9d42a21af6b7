import MqBridgeApp.Lib.Channel
import MqBridgeApp.Lib.Steps
import MqBridgeApp.Lib.Text

/-!
# Capturing the last messages

A push that finds the buffer full takes out the oldest message and tries once more. Other pushes may come between
its steps, and one that takes the room it made has it lose its own message.
-/

namespace MqBridge.Metrics

structure CapturedMessage (M : Type) where
  source : Text
  captureTime : Nat
  message : M
deriving DecidableEq

/-- A message in the buffer, with the number of its push. -/
structure Entered (M : Type) where
  entry : Nat
  captured : CapturedMessage M
deriving DecidableEq

/-- A push, by what it does next. -/
inductive PushCall (M : Type) where
  | full (captured : CapturedMessage M)
  | received (captured : CapturedMessage M)
  | returned
deriving DecidableEq

def PushCall.isReturned {M : Type} : PushCall M → Bool
  | .returned => true
  | _ => false

/-- The push has received, and has its second try before it. -/
def PushCall.hasReceived {M : Type} : PushCall M → Bool
  | .received _ => true
  | _ => false

/-- A buffer and the pushes on it, in the order in which they made their first try. -/
structure MessageCapture (M : Type) where
  channel : Channel (Entered M)
  pushes : List (PushCall M) := []
  /-- What was received by a push or did not find room again. -/
  dropped : List (Entered M) := []

namespace MessageCapture
variable {M : Type}

def withCapacity (keepLast : Nat) : MessageCapture M := { channel := .empty (max keepLast 1) }

inductive Action (M : Type) where
  | push (source : Text) (time : Nat) (message : M)
  | resume (index : Nat)

def enter (capture : MessageCapture M) (captured : CapturedMessage M) : MessageCapture M :=
  match capture.channel.trySend ⟨capture.pushes.length, captured⟩ with
  | some channel => { capture with channel, pushes := capture.pushes ++ [.returned] }
  | none => { capture with pushes := capture.pushes ++ [.full captured] }

def resume (capture : MessageCapture M) (index : Nat) : PushCall M → Option (MessageCapture M)
  | .full captured =>
    match capture.channel.tryRecv with
    | some (oldest, channel) =>
      some { capture with
        channel
        pushes := capture.pushes.set index (.received captured)
        dropped := capture.dropped ++ [oldest] }
    | none => some { capture with pushes := capture.pushes.set index (.received captured) }
  | .received captured =>
    match capture.channel.trySend ⟨index, captured⟩ with
    | some channel => some { capture with channel, pushes := capture.pushes.set index .returned }
    | none =>
      some { capture with
        pushes := capture.pushes.set index .returned
        dropped := capture.dropped ++ [⟨index, captured⟩] }
  | .returned => none

def step (capture : MessageCapture M) : Action M → Option (MessageCapture M)
  | .push source time message => some (capture.enter ⟨source, time, message⟩)
  | .resume index => capture.pushes[index]?.bind (capture.resume index)

section
variable (capture : MessageCapture M) (pushes : List (PushCall M)) (captured : CapturedMessage M)

theorem step_resume_last {push : PushCall M} (last : capture.pushes = pushes ++ [push]) :
    step capture (.resume pushes.length) = capture.resume pushes.length push := by
  unfold step
  dsimp only
  rw [last, List.getElem?_concat_length, Option.bind_some]

theorem set_last (pushes : List (PushCall M)) (push new : PushCall M) :
    (pushes ++ [push]).set pushes.length new = pushes ++ [new] := by
  rw [List.set_append_right _ _ (Nat.le_refl _), Nat.sub_self]
  rfl

theorem resume_received (last : capture.pushes = pushes ++ [.received captured]) :
    ∃ after, step capture (.resume pushes.length) = some after ∧ after.pushes = pushes ++ [.returned] ∧
      after.channel = (capture.channel.trySend ⟨pushes.length, captured⟩).getD capture.channel := by
  rw [step_resume_last capture pushes last]
  unfold resume
  dsimp only
  rw [last, set_last]
  cases capture.channel.trySend ⟨pushes.length, captured⟩ with
  | some channel => exact ⟨_, rfl, rfl, rfl⟩
  | none => exact ⟨_, rfl, rfl, rfl⟩

theorem resume_full (last : capture.pushes = pushes ++ [.full captured]) :
    ∃ after, step capture (.resume pushes.length) = some after ∧ after.pushes = pushes ++ [.received captured] ∧
      after.channel = (capture.channel.tryRecv.map Prod.snd).getD capture.channel := by
  rw [step_resume_last capture pushes last]
  unfold resume
  dsimp only
  rw [last, set_last]
  cases capture.channel.tryRecv with
  | some oldest => exact ⟨_, rfl, rfl, rfl⟩
  | none => exact ⟨_, rfl, rfl, rfl⟩

theorem push_alone (source : Text) (time : Nat) (message : M) :
    ∃ resumes after, Steps.play step capture (.push source time message :: resumes) = some after ∧
      after.pushes = capture.pushes ++ [.returned] ∧
      after.channel = capture.channel.sendLast ⟨capture.pushes.length, ⟨source, time, message⟩⟩ := by
  unfold Channel.sendLast
  cases sent : capture.channel.trySend ⟨capture.pushes.length, ⟨source, time, message⟩⟩ with
  | some channel =>
    refine ⟨[], capture.enter ⟨source, time, message⟩, rfl, ?_, ?_⟩ <;> unfold enter <;> rw [sent]
  | none =>
    have entered : step capture (.push source time message) =
        some { capture with pushes := capture.pushes ++ [.full ⟨source, time, message⟩] } := by
      unfold step enter
      dsimp only
      rw [sent]
    obtain ⟨emptied, first, pushes, room⟩ := resume_full
      { capture with pushes := capture.pushes ++ [.full ⟨source, time, message⟩] } capture.pushes _ rfl
    obtain ⟨after, second, returned, channel⟩ := resume_received emptied capture.pushes _ pushes
    refine ⟨[.resume capture.pushes.length, .resume capture.pushes.length], after, ?_, returned, ?_⟩
    · rw [Steps.play_cons entered, Steps.play_cons first, Steps.play_cons second]
      rfl
    · rw [channel, room]

end

/-! ### How many are kept -/

def received (capture : MessageCapture M) : Nat := capture.pushes.countP PushCall.hasReceived

/-- Every push found room, or the pushes that have received make up for what is missing. -/
def Counted (keepLast : Nat) (capture : MessageCapture M) : Prop :=
  capture.channel.capacity = keepLast ∧
    ((capture.channel.items.length = capture.pushes.length ∧ ∀ push ∈ capture.pushes, push = .returned) ∨
      (keepLast < capture.pushes.length ∧ keepLast ≤ capture.channel.items.length + capture.received))

/-- Each push that has returned has its message in the buffer, or dropped. -/
def Accounted (capture : MessageCapture M) : Prop :=
  ∀ index, capture.pushes[index]? = some .returned →
    ∃ item ∈ capture.channel.items ++ capture.dropped, item.entry = index

section
variable {capture after : MessageCapture M} {keepLast index : Nat}

theorem countP_set_push {pushes : List (PushCall M)} {old new : PushCall M} (there : pushes[index]? = some old) :
    (pushes.set index new).countP PushCall.hasReceived + (if old.hasReceived then 1 else 0) =
      pushes.countP PushCall.hasReceived + if new.hasReceived then 1 else 0 := by
  obtain ⟨inside, same⟩ := List.getElem?_eq_some_iff.mp there
  have counted : (if old.hasReceived then 1 else 0) ≤ pushes.countP PushCall.hasReceived := by
    split
    · next holds => exact List.countP_pos_iff.mpr ⟨old, List.mem_of_getElem? there, holds⟩
    · exact Nat.zero_le _
  rw [List.countP_set inside, same]
  omega

theorem counted_enter {captured : CapturedMessage M} (counted : capture.Counted keepLast) :
    (capture.enter captured).Counted keepLast := by
  obtain ⟨capacity, counted⟩ := counted
  unfold enter
  cases sent : capture.channel.trySend ⟨capture.pushes.length, captured⟩ with
  | some channel =>
    obtain ⟨room, same, items⟩ := Channel.trySend_some sent
    refine ⟨same.trans capacity, ?_⟩
    rcases counted with ⟨all, returned⟩ | ⟨more, filled⟩
    · left
      constructor
      · simp only [items, List.length_append, all, List.length_singleton]
      · intro push member
        rcases List.mem_append.mp member with old | new
        · exact returned push old
        · exact List.mem_singleton.mp new
    · right
      constructor
      · simp only [List.length_append, List.length_singleton]
        omega
      · simp only [received, items, List.length_append, List.countP_append, List.length_singleton] at filled ⊢
        omega
  | none =>
    have full := Channel.trySend_none sent
    refine ⟨capacity, .inr ⟨?_, ?_⟩⟩
    · simp only [List.length_append, List.length_singleton]
      rcases counted with ⟨all, -⟩ | ⟨more, -⟩ <;> omega
    · simp only [received]
      omega

theorem counted_resume {push : PushCall M} (counted : capture.Counted keepLast)
    (there : capture.pushes[index]? = some push) (resumed : capture.resume index push = some after) :
    after.Counted keepLast := by
  obtain ⟨capacity, counted⟩ := counted
  have filled : push ≠ .returned →
      keepLast < capture.pushes.length ∧ keepLast ≤ capture.channel.items.length + capture.received := by
    intro pending
    rcases counted with ⟨-, returned⟩ | filled
    · exact absurd (returned push (List.mem_of_getElem? there)) pending
    · exact filled
  have change := fun new => @countP_set_push M index capture.pushes push new there
  unfold resume at resumed
  cases push with
  | full captured =>
    obtain ⟨more, filled⟩ := filled nofun
    have change := change (.received captured)
    simp only [PushCall.hasReceived] at change
    cases taken : capture.channel.tryRecv with
    | some pair =>
      obtain ⟨oldest, channel⟩ := pair
      obtain ⟨same, items⟩ := Channel.tryRecv_some taken
      simp only [taken, Option.some.injEq] at resumed
      obtain rfl := resumed
      refine ⟨same.trans capacity, .inr ⟨?_, ?_⟩⟩
      · rwa [List.length_set]
      · simp only [received, items, List.length_cons] at filled ⊢
        simp at change
        omega
    | none =>
      simp only [taken, Option.some.injEq] at resumed
      obtain rfl := resumed
      refine ⟨capacity, .inr ⟨?_, ?_⟩⟩
      · rwa [List.length_set]
      · simp only [received] at filled ⊢
        simp at change
        omega
  | received captured =>
    obtain ⟨more, filled⟩ := filled nofun
    have change := change .returned
    simp [PushCall.hasReceived] at change
    cases sent : capture.channel.trySend ⟨index, captured⟩ with
    | some channel =>
      obtain ⟨room, same, items⟩ := Channel.trySend_some sent
      simp only [sent, Option.some.injEq] at resumed
      obtain rfl := resumed
      refine ⟨same.trans capacity, .inr ⟨?_, ?_⟩⟩
      · rwa [List.length_set]
      · simp only [received, items, List.length_append, List.length_singleton] at filled ⊢
        omega
    | none =>
      have full := Channel.trySend_none sent
      simp only [sent, Option.some.injEq] at resumed
      obtain rfl := resumed
      refine ⟨capacity, .inr ⟨?_, ?_⟩⟩
      · rwa [List.length_set]
      · simp only [received] at filled ⊢
        omega
  | returned => cases resumed

theorem accounted_enter {captured : CapturedMessage M} (accounted : capture.Accounted) :
    (capture.enter captured).Accounted := by
  intro entry there
  unfold enter at there ⊢
  cases sent : capture.channel.trySend ⟨capture.pushes.length, captured⟩ with
  | some channel =>
    obtain ⟨-, -, items⟩ := Channel.trySend_some sent
    simp only [sent] at there ⊢
    rw [items]
    rcases Steps.call_of_append there with there | ⟨rfl, -⟩
    · obtain ⟨item, member, same⟩ := accounted entry there
      refine ⟨item, ?_, same⟩
      simp only [List.mem_append] at member ⊢
      exact member.imp .inl id
    · exact ⟨⟨capture.pushes.length, captured⟩, by simp, rfl⟩
  | none =>
    simp only [sent] at there ⊢
    rcases Steps.call_of_append there with there | ⟨-, same⟩
    · exact accounted entry there
    · cases same

theorem accounted_resume {push : PushCall M} (accounted : capture.Accounted)
    (resumed : capture.resume index push = some after) : after.Accounted := by
  have elsewhere : ∀ {new : PushCall M} {entry}, (capture.pushes.set index new)[entry]? = some .returned →
      new = .returned ∧ entry = index ∨ capture.pushes[entry]? = some .returned := by
    intro new entry there
    rcases Steps.call_of_set there with ⟨same, returned⟩ | ⟨-, there⟩
    · exact .inl ⟨returned.symm, same.symm⟩
    · exact .inr there
  unfold resume at resumed
  cases push with
  | full captured =>
    cases taken : capture.channel.tryRecv with
    | some pair =>
      obtain ⟨oldest, channel⟩ := pair
      obtain ⟨-, items⟩ := Channel.tryRecv_some taken
      simp only [taken, Option.some.injEq] at resumed
      obtain rfl := resumed
      intro entry there
      rcases elsewhere there with ⟨same, -⟩ | there
      · cases same
      · obtain ⟨item, member, same⟩ := accounted entry there
        refine ⟨item, ?_, same⟩
        simp only [items, List.mem_append, List.mem_cons, List.not_mem_nil, or_false] at member ⊢
        rcases member with (first | kept) | gone
        · exact .inr (.inr first)
        · exact .inl kept
        · exact .inr (.inl gone)
    | none =>
      simp only [taken, Option.some.injEq] at resumed
      obtain rfl := resumed
      intro entry there
      rcases elsewhere there with ⟨same, -⟩ | there
      · cases same
      · exact accounted entry there
  | received captured =>
    cases sent : capture.channel.trySend ⟨index, captured⟩ with
    | some channel =>
      obtain ⟨-, -, items⟩ := Channel.trySend_some sent
      simp only [sent, Option.some.injEq] at resumed
      obtain rfl := resumed
      intro entry there
      rcases elsewhere there with ⟨-, rfl⟩ | there
      · exact ⟨⟨entry, captured⟩, by simp [items], rfl⟩
      · obtain ⟨item, member, same⟩ := accounted entry there
        refine ⟨item, ?_, same⟩
        simp only [items, List.mem_append] at member ⊢
        exact member.imp .inl id
    | none =>
      simp only [sent, Option.some.injEq] at resumed
      obtain rfl := resumed
      intro entry there
      rcases elsewhere there with ⟨-, rfl⟩ | there
      · exact ⟨⟨entry, captured⟩, by simp, rfl⟩
      · obtain ⟨item, member, same⟩ := accounted entry there
        refine ⟨item, ?_, same⟩
        simp only [List.mem_append] at member ⊢
        exact member.imp id .inl
  | returned => cases resumed

/-- However the pushes interleave, once they have returned the buffer has as many messages as it can have. -/
theorem kept_count {actions : List (Action M)} (played : Steps.play step (withCapacity keepLast) actions = some capture)
    (returned : ∀ push ∈ capture.pushes, push = .returned) :
    capture.channel.items.length = min (max keepLast 1) capture.pushes.length := by
  have initial : (withCapacity keepLast : MessageCapture M).Counted (max keepLast 1) := ⟨rfl, .inl ⟨rfl, nofun⟩⟩
  have kept : ∀ {capture : MessageCapture M} {action next}, capture.Counted (max keepLast 1) →
      capture.step action = some next → next.Counted (max keepLast 1) := by
    intro capture action next counted stepped
    cases action with
    | push source time message =>
      obtain rfl := Option.some.inj stepped
      exact counted_enter counted
    | resume index =>
      obtain ⟨push, there, resumed⟩ := Option.bind_eq_some_iff.mp stepped
      exact counted_resume counted there resumed
  obtain ⟨capacity, counted⟩ := Steps.play_kept kept initial played
  have bounded := capture.channel.bounded
  have none : capture.received = 0 := by
    rw [received, List.countP_eq_zero]
    intro push member
    rw [returned push member]
    exact Bool.false_ne_true
  rcases counted with ⟨all, -⟩ | ⟨more, filled⟩ <;> omega

/-! ### Which are kept -/

/-- No push that is under way is overtaken, and none finds nothing to receive: a message gets into the buffer when
every push that came before it has returned. -/
def InTurn (capture : MessageCapture M) : Action M → Prop
  | .push _ _ _ =>
    capture.channel.items.length < capture.channel.capacity → ∀ push ∈ capture.pushes, push.isReturned = true
  | .resume index =>
    ∀ push ∈ capture.pushes[index]?,
      if push.hasReceived then ∀ earlier ∈ capture.pushes.take index, earlier.isReturned = true
      else capture.channel.items ≠ []

instance (capture : MessageCapture M) : DecidablePred capture.InTurn
  | .push _ _ _ => inferInstanceAs (Decidable (_ → ∀ push ∈ capture.pushes, push.isReturned = true))
  | .resume index => inferInstanceAs (Decidable (∀ push ∈ capture.pushes[index]?,
      if push.hasReceived then ∀ earlier ∈ capture.pushes.take index, earlier.isReturned = true
      else capture.channel.items ≠ []))

def Pending (capture : MessageCapture M) (index : Nat) : Prop :=
  ∃ push, capture.pushes[index]? = some push ∧ push.isReturned = false

/-- What was dropped came before what is in the buffer, and that before the pushes under way. -/
structure Ordered (capture : MessageCapture M) : Prop where
  sorted : capture.channel.items.Pairwise fun older newer => older.entry < newer.entry
  dropped : ∀ gone ∈ capture.dropped, ∀ item ∈ capture.channel.items, gone.entry < item.entry
  behind : ∀ item ∈ capture.channel.items ++ capture.dropped, ∀ index, capture.Pending index → item.entry < index
  entered : ∀ item ∈ capture.channel.items ++ capture.dropped, item.entry < capture.pushes.length
  room : capture.channel.items.length + capture.received ≤ capture.channel.capacity

theorem ordered_enter {source : Text} {time : Nat} {message : M} (ordered : capture.Ordered)
    (inTurn : capture.InTurn (.push source time message)) : (capture.enter ⟨source, time, message⟩).Ordered := by
  unfold enter
  cases sent : capture.channel.trySend ⟨capture.pushes.length, ⟨source, time, message⟩⟩ with
  | some channel =>
    obtain ⟨room, capacity, items⟩ := Channel.trySend_some sent
    have idle := inTurn room
    have pendingNone : ∀ index, ¬Pending { capture with channel, pushes := capture.pushes ++ [.returned] } index := by
      rintro index ⟨push, there, pending⟩
      rcases List.mem_append.mp (List.mem_of_getElem? there) with old | new
      · rw [idle push old] at pending
        cases pending
      · rw [List.mem_singleton.mp new] at pending
        cases pending
    have none : capture.received = 0 := by
      rw [received, List.countP_eq_zero]
      intro push member holds
      have isReturned := idle push member
      cases push with
      | returned => cases holds
      | _ => cases isReturned
    have bound := ordered.entered
    refine ⟨?_, ?_, fun item _ index pending => absurd pending (pendingNone index), ?_, ?_⟩
    · rw [items, List.pairwise_append]
      refine ⟨ordered.sorted, List.pairwise_singleton _ _, ?_⟩
      intro older member newer new
      rw [List.mem_singleton.mp new]
      exact bound older (List.mem_append_left _ member)
    · intro gone member item inside
      rw [items] at inside
      rcases List.mem_append.mp inside with old | new
      · exact ordered.dropped gone member item old
      · rw [List.mem_singleton.mp new]
        exact bound gone (List.mem_append_right _ member)
    · intro item member
      rw [List.length_append]
      rw [items, List.append_assoc] at member
      have old : item ∈ capture.channel.items ++ capture.dropped ∨ item.entry = capture.pushes.length := by
        rcases List.mem_append.mp member with kept | rest
        · exact .inl (List.mem_append_left _ kept)
        · rcases List.mem_append.mp rest with new | gone
          · exact .inr (by rw [List.mem_singleton.mp new])
          · exact .inl (List.mem_append_right _ gone)
      rcases old with old | same
      · exact Nat.lt_add_right _ (bound item old)
      · rw [same]
        exact Nat.lt_succ_self _
    · have zero : (capture.pushes ++ [PushCall.returned]).countP PushCall.hasReceived = 0 := by
        rw [List.countP_append]
        exact none
      simp only [received, zero, items, List.length_append, List.length_singleton]
      omega
  | none =>
    have full := Channel.trySend_none sent
    refine ⟨ordered.sorted, ordered.dropped, ?_, ?_, ?_⟩
    · rintro item member index ⟨push, there, pending⟩
      rcases Steps.call_of_append there with there | ⟨rfl, -⟩
      · exact ordered.behind item member index ⟨push, there, pending⟩
      · exact ordered.entered item member
    · intro item member
      rw [List.length_append]
      exact Nat.lt_add_right _ (ordered.entered item member)
    · have same : (capture.pushes ++ [PushCall.full ⟨source, time, message⟩]).countP PushCall.hasReceived =
          capture.received := by
        rw [List.countP_append]
        rfl
      simp only [received, same]
      exact ordered.room

theorem pending_set {push new : PushCall M} {channel : Channel (Entered M)} {dropped : List (Entered M)} {entry : Nat}
    (there : capture.pushes[index]? = some push) (underway : push.isReturned = false)
    (pending : Pending { capture with channel, dropped, pushes := capture.pushes.set index new } entry) :
    capture.Pending entry := by
  obtain ⟨other, found, waiting⟩ := pending
  rcases Steps.call_of_set found with ⟨rfl, -⟩ | ⟨-, found⟩
  · exact ⟨push, there, underway⟩
  · exact ⟨other, found, waiting⟩

theorem ordered_receive {captured : CapturedMessage M} (ordered : capture.Ordered)
    (there : capture.pushes[index]? = some (.full captured)) (filled : capture.channel.items ≠ [])
    (resumed : capture.resume index (.full captured) = some after) : after.Ordered := by
  have change := @countP_set_push M index capture.pushes _ (.received captured) there
  simp only [PushCall.hasReceived, Bool.false_eq_true, if_false, if_true] at change
  unfold resume at resumed
  cases taken : capture.channel.tryRecv with
  | none => exact absurd (Channel.tryRecv_none taken) filled
  | some pair =>
    obtain ⟨oldest, channel⟩ := pair
    obtain ⟨capacity, items⟩ := Channel.tryRecv_some taken
    simp only [taken, Option.some.injEq] at resumed
    obtain rfl := resumed
    have sorted := ordered.sorted
    rw [items, List.pairwise_cons] at sorted
    have known : ∀ item ∈ channel.items ++ (capture.dropped ++ [oldest]),
        item ∈ capture.channel.items ++ capture.dropped := by
      intro item member
      simp only [items, List.mem_append, List.mem_cons, List.not_mem_nil, or_false] at member ⊢
      rcases member with kept | gone | first
      · exact .inl (.inr kept)
      · exact .inr gone
      · exact .inl (.inl first)
    refine ⟨sorted.2, ?_, ?_, ?_, ?_⟩
    · intro gone member item inside
      rcases List.mem_append.mp member with old | new
      · exact ordered.dropped gone old item (items ▸ List.mem_cons_of_mem _ inside)
      · rw [List.mem_singleton.mp new]
        exact sorted.1 item inside
    · intro item member entry pending
      exact ordered.behind item (known item member) entry (pending_set there rfl pending)
    · intro item member
      rw [List.length_set]
      exact ordered.entered item (known item member)
    · have room := ordered.room
      simp only [received, items, List.length_cons, capacity] at room ⊢
      omega

theorem ordered_sendAgain {captured : CapturedMessage M} (ordered : capture.Ordered)
    (there : capture.pushes[index]? = some (.received captured))
    (first : ∀ earlier ∈ capture.pushes.take index, earlier.isReturned = true)
    (resumed : capture.resume index (.received captured) = some after) : after.Ordered := by
  have change := @countP_set_push M index capture.pushes _ .returned there
  simp only [PushCall.hasReceived, Bool.false_eq_true, if_false, if_true] at change
  have room := ordered.room
  simp only [received] at room
  unfold resume at resumed
  cases sent : capture.channel.trySend ⟨index, captured⟩ with
  | none =>
    -- the room that this push has made is still there
    have full := Channel.trySend_none sent
    omega
  | some channel =>
    obtain ⟨-, capacity, items⟩ := Channel.trySend_some sent
    simp only [sent, Option.some.injEq] at resumed
    obtain rfl := resumed
    have mine : capture.Pending index := ⟨_, there, rfl⟩
    refine ⟨?_, ?_, ?_, ?_, ?_⟩
    · rw [items, List.pairwise_append]
      refine ⟨ordered.sorted, List.pairwise_singleton _ _, ?_⟩
      intro older member newer new
      rw [List.mem_singleton.mp new]
      exact ordered.behind older (List.mem_append_left _ member) index mine
    · intro gone member item inside
      rw [items] at inside
      rcases List.mem_append.mp inside with old | new
      · exact ordered.dropped gone member item old
      · rw [List.mem_singleton.mp new]
        exact ordered.behind gone (List.mem_append_right _ member) index mine
    · rintro item member entry ⟨push, found, pending⟩
      rcases Steps.call_of_set found with ⟨-, rfl⟩ | ⟨apart, found⟩
      · cases pending
      rw [items, List.append_assoc] at member
      rcases List.mem_append.mp member with kept | rest
      · exact ordered.behind item (List.mem_append_left _ kept) entry ⟨push, found, pending⟩
      · rcases List.mem_append.mp rest with new | gone
        · rw [List.mem_singleton.mp new]
          show index < entry
          -- an earlier push under way would have to send first
          by_contra before
          have earlier : entry < index := by omega
          have early : push ∈ capture.pushes.take index := by
            apply List.mem_of_getElem?
            rw [List.getElem?_take_of_lt earlier]
            exact found
          rw [first push early] at pending
          cases pending
        · exact ordered.behind item (List.mem_append_right _ gone) entry ⟨push, found, pending⟩
    · intro item member
      rw [List.length_set]
      rw [items, List.append_assoc] at member
      rcases List.mem_append.mp member with kept | rest
      · exact ordered.entered item (List.mem_append_left _ kept)
      · rcases List.mem_append.mp rest with new | gone
        · rw [List.mem_singleton.mp new]
          exact (List.getElem?_eq_some_iff.mp there).1
        · exact ordered.entered item (List.mem_append_right _ gone)
    · simp only [received, items, List.length_append, List.length_singleton, capacity]
      omega

theorem ordered_step {action : Action M} (ordered : capture.Ordered) (inTurn : capture.InTurn action)
    (stepped : capture.step action = some after) : after.Ordered := by
  cases action with
  | push source time message =>
    obtain rfl := Option.some.inj stepped
    exact ordered_enter ordered inTurn
  | resume index =>
    obtain ⟨push, there, resumed⟩ := Option.bind_eq_some_iff.mp stepped
    have inTurn := inTurn push there
    cases push with
    | full captured => exact ordered_receive ordered there inTurn resumed
    | received captured => exact ordered_sendAgain ordered there inTurn resumed
    | returned => cases resumed

/-- When the pushes of a run take their turns, once they have returned the buffer has the last of their messages. -/
theorem last_kept {actions : List (Action M)}
    (inTurn : Steps.Careful step InTurn (withCapacity keepLast) actions)
    (played : Steps.play step (withCapacity keepLast) actions = some capture)
    (returned : ∀ push ∈ capture.pushes, push = .returned) :
    capture.channel.items.length = min (max keepLast 1) capture.pushes.length ∧
      (∀ index < capture.pushes.length, ∃ item ∈ capture.channel.items ++ capture.dropped, item.entry = index) ∧
      ∀ gone ∈ capture.dropped, ∀ item ∈ capture.channel.items, gone.entry < item.entry := by
  have accounted : capture.Accounted := by
    refine Steps.play_kept (fun {before action next} kept stepped => ?_) (fun index there => by cases there) played
    cases action with
    | push source time message =>
      obtain rfl := Option.some.inj stepped
      exact accounted_enter kept
    | resume index =>
      obtain ⟨push, there, resumed⟩ := Option.bind_eq_some_iff.mp stepped
      exact accounted_resume kept resumed
  have initial : (withCapacity keepLast : MessageCapture M).Ordered :=
    ⟨.nil, nofun, nofun, nofun, Nat.zero_le _⟩
  have ordered := Steps.play_invariant ordered_step initial inTurn played
  refine ⟨kept_count played returned, ?_, ordered.dropped⟩
  intro index inside
  apply accounted index
  rw [List.getElem?_eq_getElem inside, returned _ (List.getElem_mem inside)]

end

/-- Three messages go through a buffer of two, the last of them while it is full. -/
def pushedInTurn : List (Action Text) :=
  [.push "s" 1 "a", .push "s" 2 "b", .push "s" 3 "c", .resume 2, .resume 2]

theorem last_kept_pushedInTurn : ∃ capture, Steps.play step (withCapacity 2) pushedInTurn = some capture ∧
    ∀ gone ∈ capture.dropped, ∀ item ∈ capture.channel.items, gone.entry < item.entry := by
  have ended : (Steps.play step (withCapacity 2) pushedInTurn).any
      (fun capture => capture.pushes.all PushCall.isReturned) = true := by decide
  obtain ⟨capture, played, all⟩ := (Option.any_eq_true _ _).mp ended
  have returned : ∀ push ∈ capture.pushes, push = .returned := by
    intro push member
    have isReturned := List.all_eq_true.mp all push member
    cases push <;> first | rfl | cases isReturned
  exact ⟨capture, played, (last_kept (by decide) played returned).2.2⟩

/-- A fourth message takes the room that the third has made. -/
def overtaken : List (Action Text) :=
  [.push "s" 1 "a", .push "s" 2 "b", .push "s" 3 "c", .resume 2, .push "s" 4 "d", .resume 2]

/-- The third message is lost, and the second, whose push was over before the third's began, is still there. -/
theorem overtaken_loses_the_newer : ∃ capture, Steps.play step (withCapacity 2) overtaken = some capture ∧
    (∀ push ∈ capture.pushes, push = .returned) ∧
      capture.channel.items.map (·.captured.message) = [("b" : Text), "d"] ∧
      capture.dropped.map (·.captured.message) = [("a" : Text), "c"] ∧
      ¬∀ gone ∈ capture.dropped, ∀ item ∈ capture.channel.items, gone.entry < item.entry :=
  ⟨_, rfl, by decide, rfl, rfl, by decide⟩

end MessageCapture

end MqBridge.Metrics
