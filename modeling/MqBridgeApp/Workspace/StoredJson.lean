import MqBridgeApp.Lib.Lists
import MqBridgeApp.Workspace.MessageStorage

/-!
# Asynchronous writes to browser storage

`setStoredJson` sets a plain value at once. It sets an encrypted one when its key has been imported and its
text encrypted, and callers do not wait for that. A call that takes longer than a later one writes over it,
and a call whose value the storage has no room for is rejected.
-/

namespace MqBridge.Workspace
open Text

/-- What is used of `crypto.subtle`, with the texts of values before and after. A key in hexadecimal is refused
where it is not one. -/
structure WebCrypto where
  Key : Type
  importKey : Text → Option Key
  /-- The values that their text gives back. -/
  Value : Json → Prop
  encrypt : Key → (nonce slot : Text) → Json → Text
  decrypt : Key → (nonce slot ciphertext : Text) → Option Json
  decrypt_encrypt : ∀ {value}, Value value → ∀ key nonce slot,
    decrypt key nonce slot (encrypt key nonce slot value) = some value

/-- What `JSON.parse` makes of a stored text, where it does not fail. -/
abbrev Raw := Option Json

namespace StoredJson

def isEnvelope (value : Json) : Bool :=
  value.get? "v" == some (.num (.ofNat 1)) && value.get? "alg" == some (.str "AES-256-GCM") &&
    (["kid", "nonce", "ciphertext"] : List Text).all fun field => value.get? field matches some (.str _)

section
variable (crypto : WebCrypto) (slot : Text)

def importMessageKey (security : StorageSecurityInfo) : Option crypto.Key :=
  (security.messageKeyHex.filter fun key => !key.isEmpty).bind crypto.importKey

def decryptJson (parsed : Json) (security : StorageSecurityInfo) : Option Json :=
  if isEnvelope parsed then
    match importMessageKey crypto security, parsed.get? "nonce", parsed.get? "ciphertext" with
    | some key, some (.str nonce), some (.str ciphertext) => crypto.decrypt key nonce slot ciphertext
    | _, _, _ => none
  else some parsed

/-- The value that is read, and what is left in the storage. -/
def getStoredJson (stored : Option Raw) (fallback : Json) (security : StorageSecurityInfo) (clearOnFailure : Bool) :
    Json × Option Raw :=
  let unread := (fallback, if clearOnFailure then none else stored)
  match stored with
  | none => (fallback, stored)
  | some raw =>
    if hasEncryptedMessages security then
      match raw.bind fun parsed => decryptJson crypto slot parsed security with
      | some value => (value, stored)
      | none => unread
    else
      match raw with
      | some parsed => if isEnvelope parsed then unread else (parsed, stored)
      | none => (fallback, stored)

/-! ### Calls under way -/

inductive Phase where
  | importing
  | encrypting (key : crypto.Key) (nonce : Text) (plaintext : Subtype crypto.Value)
  | stored
  | rejected

structure Call where
  object : Nat
  /-- The value of the object when the call was made. -/
  value : Subtype crypto.Value
  security : StorageSecurityInfo
  phase : Phase crypto

/-- The calls for one storage key, with the objects of the program, which it changes while calls hold them. -/
structure Tab where
  objects : Nat → Subtype crypto.Value
  stored : Option Raw := none
  calls : List (Call crypto) := []

/-- A step that sets a value, which the storage refuses unless it fits. -/
inductive Action where
  | assign (object : Nat) (value : Subtype crypto.Value)
  | setStoredJson (object : Nat) (security : StorageSecurityInfo) (fits : Bool)
  | imported (index : Nat) (nonce : Text)
  | encrypted (index : Nat) (fits : Bool)

variable {crypto}

def Call.isStored (call : Call crypto) : Bool := call.phase matches .stored

def Call.isCompleted (call : Call crypto) : Bool := call.phase matches .stored | .rejected

namespace Tab

def setPhase (tab : Tab crypto) (index : Nat) (call : Call crypto) (phase : Phase crypto) : Tab crypto :=
  { tab with calls := tab.calls.set index { call with phase } }

def setStoredJson (tab : Tab crypto) (object : Nat) (security : StorageSecurityInfo) (fits : Bool) : Tab crypto :=
  let value := tab.objects object
  if hasEncryptedMessages security then
    { tab with calls := tab.calls ++ [{ object, value, security, phase := .importing }] }
  else if !fits then { tab with calls := tab.calls ++ [{ object, value, security, phase := .rejected }] }
  else
    { tab with stored := some (some value.1), calls := tab.calls ++ [{ object, value, security, phase := .stored }] }

/-- The text of the value is taken when the key is there. -/
def imported (tab : Tab crypto) (index : Nat) (nonce : Text) : Option (Tab crypto) :=
  match tab.calls[index]? with
  | some call =>
    match call.phase with
    | .importing =>
      match importMessageKey crypto call.security with
      | some key => some (tab.setPhase index call (.encrypting key nonce (tab.objects call.object)))
      | none => some (tab.setPhase index call .rejected)
    | _ => none
  | none => none

def encrypted (tab : Tab crypto) (index : Nat) (fits : Bool) : Option (Tab crypto) :=
  match tab.calls[index]? with
  | some call =>
    match call.phase with
    | .encrypting key nonce plaintext =>
      if !fits then some (tab.setPhase index call .rejected)
      else
        let ciphertext := crypto.encrypt key nonce slot plaintext.1
        some { tab.setPhase index call .stored with stored := some (some (envelope (kidOf call.security) nonce ciphertext)) }
    | _ => none
  | none => none

def step (tab : Tab crypto) : Action crypto → Option (Tab crypto)
  | .assign object value => some { tab with objects := Function.update tab.objects object value }
  | .setStoredJson object security fits => some (tab.setStoredJson object security fits)
  | .imported index nonce => tab.imported index nonce
  | .encrypted index fits => tab.encrypted slot index fits

end Tab

/-- What is stored is read as a value, whatever stands in for what cannot be read. -/
def Decodes (crypto : WebCrypto) (slot : Text) (stored : Option Raw) (security : StorageSecurityInfo) (value : Json) : Prop :=
  ∀ fallback clearOnFailure, (getStoredJson crypto slot stored fallback security clearOnFailure).1 = value

/-- The stored value is the one of the last call. -/
def LastStored (tab : Tab crypto) : Prop :=
  ∀ call ∈ tab.calls.getLast?, Decodes crypto slot tab.stored call.security call.value.1

/-- Nothing is stored after the last call has stored its value. That call has a key where it encrypts, its object has
not changed when it is read, and its value fits. A plain value does not look like an encrypted one. -/
def InTurn (tab : Tab crypto) : Action crypto → Prop
  | .assign _ _ => True
  | .setStoredJson object security fits =>
    hasEncryptedMessages security = false → fits = true ∧ isEnvelope (tab.objects object).1 = false
  | .imported index _ => ∀ call ∈ tab.calls.getLast?, index + 1 = tab.calls.length →
    tab.objects call.object = call.value ∧ (importMessageKey crypto call.security).isSome
  | .encrypted index fits => ∀ call ∈ tab.calls.getLast?,
    (index + 1 = tab.calls.length → fits = true) ∧ (fits = true → call.isStored = false)

instance (tab : Tab crypto) : (action : Action crypto) → Decidable (InTurn tab action)
  | .assign _ _ => isTrue trivial
  | .setStoredJson object security fits =>
    inferInstanceAs (Decidable
      (hasEncryptedMessages security = false → fits = true ∧ isEnvelope (tab.objects object).1 = false))
  | .imported index _ =>
    inferInstanceAs (Decidable (∀ call ∈ tab.calls.getLast?, index + 1 = tab.calls.length →
      tab.objects call.object = call.value ∧ (importMessageKey crypto call.security).isSome))
  | .encrypted index fits =>
    inferInstanceAs (Decidable (∀ call ∈ tab.calls.getLast?,
      (index + 1 = tab.calls.length → fits = true) ∧ (fits = true → call.isStored = false)))

end

/-! ### What a step keeps -/

section
variable {crypto : WebCrypto} {slot : Text} {tab next : Tab crypto} {last call : Call crypto}

def Settles (slot : Text) (stored : Option Raw) (call : Call crypto) : Prop :=
  match call.phase with
  | .importing => hasEncryptedMessages call.security = true
  | .encrypting key _ plaintext =>
    hasEncryptedMessages call.security = true ∧ importMessageKey crypto call.security = some key ∧ plaintext = call.value
  | .stored => Decodes crypto slot stored call.security call.value.1
  | .rejected => False

def Settled (slot : Text) (tab : Tab crypto) : Prop := ∀ call ∈ tab.calls.getLast?, Settles slot tab.stored call

@[simp] theorem isEnvelope_envelope (kid nonce ciphertext : Text) : isEnvelope (envelope kid nonce ciphertext) = true := rfl

theorem decodes_plain {security : StorageSecurityInfo} {value : Json} (plain : hasEncryptedMessages security = false)
    (unlike : isEnvelope value = false) : Decodes crypto slot (some (some value)) security value := by
  intro fallback clearOnFailure
  simp [getStoredJson, plain, unlike]

theorem decodes_encrypted {security : StorageSecurityInfo} {value : Json} {key : crypto.Key} (kid nonce : Text)
    (encrypts : hasEncryptedMessages security = true) (imports : importMessageKey crypto security = some key)
    (plain : crypto.Value value) :
    Decodes crypto slot (some (some (envelope kid nonce (crypto.encrypt key nonce slot value)))) security value := by
  intro fallback clearOnFailure
  have nonceField : (envelope kid nonce (crypto.encrypt key nonce slot value)).get? "nonce" = some (.str nonce) := rfl
  have textField : (envelope kid nonce (crypto.encrypt key nonce slot value)).get? "ciphertext" =
      some (.str (crypto.encrypt key nonce slot value)) := rfl
  simp [getStoredJson, encrypts, decryptJson, imports, nonceField, textField, crypto.decrypt_encrypt plain]

theorem getLast?_setPhase {index : Nat} (found : tab.calls[index]? = some call) (phase : Phase crypto) :
    (tab.setPhase index call phase).calls.getLast? =
      if index + 1 = tab.calls.length then some { call with phase } else tab.calls.getLast? :=
  Lists.getLast?_set _ _ (List.getElem?_eq_some_iff.mp found).1

theorem getLast?_of_place {index : Nat} (found : tab.calls[index]? = some call) (place : index + 1 = tab.calls.length) :
    tab.calls.getLast? = some call := by
  rw [List.getLast?_eq_getElem?, ← found]
  congr 1
  omega

theorem settled_setPhase {index : Nat} (settled : Settled slot tab) (found : tab.calls[index]? = some call)
    {phase : Phase crypto}
    (here : index + 1 = tab.calls.length → Settles slot tab.stored { call with phase }) :
    Settled slot (tab.setPhase index call phase) := by
  intro last isLast
  rw [getLast?_setPhase found] at isLast
  split at isLast
  · next place =>
    obtain rfl := Option.some.inj isLast
    exact here place
  · exact settled last isLast

theorem settled_setStoredJson {object : Nat} {security : StorageSecurityInfo} {fits : Bool}
    (inTurn : InTurn tab (.setStoredJson object security fits)) :
    Settled slot (tab.setStoredJson object security fits) := by
  intro last isLast
  unfold Tab.setStoredJson at isLast ⊢
  split at isLast
  · next encrypts =>
    obtain rfl : _ = last := by simpa using isLast
    exact encrypts
  · next plain =>
    have plain : hasEncryptedMessages security = false := by simpa using plain
    obtain ⟨rfl, unlike⟩ := inTurn plain
    obtain rfl : _ = last := by simpa using isLast
    rw [if_neg (by simp [plain])]
    exact decodes_plain plain unlike

theorem settled_imported {index : Nat} {nonce : Text} (settled : Settled slot tab)
    (inTurn : InTurn tab (.imported index nonce)) (stepped : tab.imported index nonce = some next) :
    Settled slot next := by
  unfold Tab.imported at stepped
  split at stepped
  case h_2 => cases stepped
  next call found =>
  split at stepped
  case h_2 => cases stepped
  next importing =>
  split at stepped
  · next key imports =>
    obtain rfl := Option.some.inj stepped
    refine settled_setPhase settled found fun place => ?_
    have isLast := getLast?_of_place found place
    have encrypts := settled call isLast
    simp only [Settles, importing] at encrypts
    exact ⟨encrypts, imports, (inTurn call isLast place).1⟩
  · next refused =>
    obtain rfl := Option.some.inj stepped
    refine settled_setPhase settled found fun place => ?_
    have imports := (inTurn call (getLast?_of_place found place) place).2
    simp [refused] at imports

theorem settled_encrypted {index : Nat} {fits : Bool} (settled : Settled slot tab)
    (inTurn : InTurn tab (.encrypted index fits)) (stepped : tab.encrypted slot index fits = some next) :
    Settled slot next := by
  unfold Tab.encrypted at stepped
  split at stepped
  case h_2 => cases stepped
  next call found =>
  split at stepped
  case h_2 => cases stepped
  next key nonce plaintext encrypting =>
  split at stepped
  · next refused =>
    obtain rfl := Option.some.inj stepped
    refine settled_setPhase settled found fun place => ?_
    have fitting := (inTurn call (getLast?_of_place found place)).1 place
    simp [fitting] at refused
  next fitting =>
  obtain rfl := Option.some.inj stepped
  intro last isLast
  rw [getLast?_setPhase found] at isLast
  split at isLast
  · next place =>
    obtain rfl := Option.some.inj isLast
    have here := settled call (getLast?_of_place found place)
    simp only [Settles, encrypting] at here
    obtain ⟨encrypts, imports, rfl⟩ := here
    exact decodes_encrypted _ nonce encrypts imports call.value.2
  · -- An earlier call stores while the last one is under way.
    have here := settled last isLast
    have pending := (inTurn last isLast).2 (by simpa using fitting)
    unfold Settles at here ⊢
    cases phase : last.phase <;> simp_all [Call.isStored]

theorem settled_step {action : Action crypto} (settled : Settled slot tab) (inTurn : InTurn tab action)
    (stepped : tab.step slot action = some next) : Settled slot next := by
  cases action with
  | assign object value =>
    obtain rfl := Option.some.inj stepped
    exact settled
  | setStoredJson object security fits =>
    obtain rfl := Option.some.inj stepped
    exact settled_setStoredJson inTurn
  | imported index nonce => exact settled_imported settled inTurn stepped
  | encrypted index fits => exact settled_encrypted settled inTurn stepped

end

/-- After calls for one key whose steps are taken in turn, and when all of them have come to an end, the
stored value is the one that the last call was made with. -/
theorem last_call_stored (crypto : WebCrypto) (slot : Text) (start after : Tab crypto) (actions : List (Action crypto))
    (fresh : start.calls = []) (inTurn : Steps.Careful (Tab.step slot) InTurn start actions)
    (played : Steps.play (Tab.step slot) start actions = some after)
    (completed : ∀ call ∈ after.calls, call.isCompleted = true) : LastStored slot after := by
  have initial : Settled slot start := by simp [Settled, fresh]
  have settled := Steps.play_invariant settled_step initial inTurn played
  intro call isLast
  have here := settled call isLast
  have done := completed call (List.mem_of_getLast? isLast)
  unfold Settles at here
  cases phase : call.phase <;> simp_all [Call.isCompleted]

/-! ### A call on its own -/

/-- The steps of a call that nothing comes between. -/
def undisturbed (crypto : WebCrypto) (object : Nat) (security : StorageSecurityInfo) (nonce : Text) :
    List (Action crypto) :=
  .setStoredJson object security true ::
    if hasEncryptedMessages security then
      .imported 0 nonce :: if (importMessageKey crypto security).isSome then [.encrypted 0 true] else []
    else []

theorem importMessageKey_eq {crypto : WebCrypto} {security : StorageSecurityInfo}
    (encrypts : hasEncryptedMessages security = true) :
    importMessageKey crypto security = crypto.importKey (security.messageKeyHex.getD []) := by
  unfold importMessageKey
  cases hex : security.messageKeyHex with
  | none => simp [hasEncryptedMessages, hex] at encrypts
  | some text =>
    have full : text.isEmpty = false := by
      cases text with
      | nil => simp [hasEncryptedMessages, hex] at encrypts
      | cons c rest => rfl
    rw [Option.filter_some, if_pos (by rw [full]; rfl), Option.bind_some, Option.getD_some]

/-- The view, which sets a value at once, has what such a call sets. -/
theorem play_undisturbed (crypto : WebCrypto) (browser : Browser) (view : MessageView) (key : Text) (start : Tab crypto)
    (object : Nat) (security : StorageSecurityInfo) (nonce : Text) (fresh : start.calls = [])
    (same : start.stored = view.storage.lookup key)
    (sameKeys : ∀ hex nonce slot value, browser.encrypt hex nonce slot value =
      (crypto.importKey hex).map fun key => crypto.encrypt key nonce slot value) :
    ∃ after,
      Steps.play (Tab.step ("mq-bridge-app:localStorage:" ++ key)) start (undisturbed crypto object security nonce) =
          some after ∧
        after.stored =
          (view.setStoredJson browser key (start.objects object).1 security nonce).storage.lookup key := by
  obtain ⟨objects, stored, calls⟩ := start
  obtain rfl : calls = [] := fresh
  obtain rfl : stored = view.storage.lookup key := same
  by_cases encrypts : hasEncryptedMessages security = true
  · have sealing := @importMessageKey_eq crypto security encrypts
    cases imported : importMessageKey crypto security with
    | none =>
      rw [imported] at sealing
      refine ⟨_, by simp [undisturbed, encrypts, imported, Steps.play_cons, Steps.play, Tab.step, Tab.setStoredJson,
        Tab.imported, Tab.setPhase]; rfl, ?_⟩
      simp [MessageView.setStoredJson, encrypts, sameKeys, ← sealing]
    | some messageKey =>
      rw [imported] at sealing
      refine ⟨_, by simp [undisturbed, encrypts, imported, Steps.play_cons, Steps.play, Tab.step, Tab.setStoredJson,
        Tab.imported, Tab.encrypted, Tab.setPhase]; rfl, ?_⟩
      simp [MessageView.setStoredJson, encrypts, sameKeys, ← sealing, MessageView.setItem, Assoc.lookup_insert_self]
  · refine ⟨_, by simp [undisturbed, encrypts, Steps.play_cons, Steps.play, Tab.step, Tab.setStoredJson]; rfl, ?_⟩
    simp [MessageView.setStoredJson, encrypts, MessageView.setItem, Assoc.lookup_insert_self]

/-- Seals numbers with their key and the place that they are stored in written before them. -/
def numberCrypto : WebCrypto where
  Key := Text
  importKey := some
  Value value := ∃ number, value = .num number
  encrypt key nonce slot value := key ++ nonce ++ slot ++ value.toText
  decrypt key nonce slot ciphertext :=
    (stripPrefix (key ++ nonce ++ slot) ciphertext).bind fun text =>
      if number : text ≠ [] ∧ text.all isNumberChar = true then
        some (.num ⟨text, number.1, List.all_eq_true.mp number.2⟩)
      else none
  decrypt_encrypt := by
    rintro _ ⟨number, rfl⟩ key nonce slot
    rw [stripPrefix_append, Option.bind_some]
    exact dif_pos ⟨number.nonempty, List.all_eq_true.mpr number.numeric⟩

def sealedSecurity : StorageSecurityInfo where
  messagesEncrypted := true
  messageKeyHex := some "00112233445566778899aabbccddeeff"

def numbered : Tab numberCrypto where
  objects n := ⟨.num (.ofNat n), _, rfl⟩

def bothCalls : List (Action numberCrypto) :=
  [.setStoredJson 1 sealedSecurity true, .setStoredJson 2 sealedSecurity true, .imported 0 "a", .imported 1 "b"]

def storedInTurn : Tab numberCrypto :=
  (Steps.play (Tab.step "slot") numbered (bothCalls ++ [.encrypted 0 true, .encrypted 1 true])).getD numbered

theorem last_call_stored_overlapping : LastStored "slot" storedInTurn :=
  last_call_stored numberCrypto "slot" numbered storedInTurn (bothCalls ++ [.encrypted 0 true, .encrypted 1 true]) rfl
    (by decide) rfl (by decide)

theorem overtaken_call_stored_last : ∃ after,
    Steps.play (Tab.step "slot") numbered (bothCalls ++ [.encrypted 1 true, .encrypted 0 true]) = some after ∧
      (∀ call ∈ after.calls, call.isCompleted = true) ∧ ¬ LastStored "slot" after := by
  refine ⟨_, rfl, by decide, fun last => ?_⟩
  have read := last _ rfl .null false
  revert read
  decide

end StoredJson

end MqBridge.Workspace
