import MqBridgeApp.Lib.Assoc
import MqBridgeApp.Lib.Steps
import MqBridgeApp.Lib.Text
import Mathlib.Data.List.Dedup
import Mathlib.Data.List.Sort

/-!
# Secrets in the keyring

A save writes its secrets to the keyring one by one and then the list of their names to a file of its own. The
list is all that a start and a cleanup know of the keyring.
-/

namespace MqBridge.Desktop
open Text

/-- The keyring under the app's service, the file that lists names, and the environment of the process. -/
structure DesktopSecrets where
  keyring : List (Text × Text) := []
  /-- Nothing when the file is missing or cannot be read. -/
  metadata : Option (List Text) := none
  metadataPath : Text := "secret_refs.json"
  env : List (Text × Text) := []

/-- What goes wrong with an entry that is to be stored. A failed write may have written. -/
inductive StoreFault where
  | opening
  | setting (written : Bool)
  | verifying
  | differing

def StoreFault.writes : StoreFault → Bool
  | .opening => false
  | .setting written => written
  | .verifying => true
  | .differing => true

def StoreFault.message (key : Text) : StoreFault → Text
  | .opening => "Failed to open desktop keyring entry for '" ++ key ++ "'"
  | .setting _ => "Failed to store secret '" ++ key ++ "' in desktop keyring"
  | .verifying => "Failed to verify stored secret '" ++ key ++ "' in desktop keyring"
  | .differing => "Stored secret verification failed for '" ++ key ++ "'"

inductive DeleteFault where
  | opening
  | deleting
deriving DecidableEq

inductive LoadFault where
  | opening
  | reading

/-- How a write of the metadata file ends. A failed one may have cut the file off. -/
inductive MetadataWrite where
  | written
  | failed (truncated : Bool)

namespace DesktopSecrets
variable (secrets : DesktopSecrets)

def readMetadata : List Text := (secrets.metadata.getD []).dedup

def writeMetadata (keys : List Text) : MetadataWrite → DesktopSecrets × Except Text Unit
  | .written => ({ secrets with metadata := some (keys.insertionSort fun left right => textLe left right = true).dedup }, .ok ())
  | .failed truncated =>
    ({ secrets with metadata := if truncated then none else secrets.metadata },
      .error ("Failed to write desktop secret metadata '" ++ secrets.metadataPath ++ "'"))

def storeKeys (fault : Text → Option StoreFault) (keyring : List (Text × Text)) :
    List (Text × Text) → List (Text × Text) × Except Text Unit
  | [] => (keyring, .ok ())
  | (key, value) :: rest =>
    match fault key with
    | none => storeKeys fault (Assoc.insert keyring (key, value)) rest
    | some failure =>
      (if failure.writes then Assoc.insert keyring (key, value) else keyring, .error (failure.message key))

/-- Stores the secrets in the order that the map gives them in. -/
def store (entries : List (Text × Text)) (fault : Text → Option StoreFault) (write : MetadataWrite) :
    DesktopSecrets × Except Text Unit :=
  match storeKeys fault secrets.keyring entries with
  | (keyring, .error error) => ({ secrets with keyring }, .error error)
  | (keyring, .ok ()) => { secrets with keyring }.writeMetadata (entries.map Prod.fst) write

/-- Deletes entries, and gives how many were there and which are left. -/
def deleteKeys (fault : Text → Option DeleteFault) (secrets : DesktopSecrets) :
    List Text → DesktopSecrets × Except Text (Nat × List Text)
  | [] => (secrets, .ok (0, []))
  | key :: rest =>
    match fault key with
    | some .opening => (secrets, .error ("Failed to open desktop keyring entry for '" ++ key ++ "'"))
    | some .deleting =>
      let (after, result) := deleteKeys fault secrets rest
      (after, result.map fun (deleted, remaining) => (deleted, key :: remaining))
    | none =>
      let (after, result) := deleteKeys fault
        { secrets with keyring := Assoc.erase secrets.keyring key, env := Assoc.erase secrets.env key } rest
      (after, result.map fun (deleted, remaining) =>
        (if (secrets.keyring.lookup key).isSome then deleted + 1 else deleted, remaining))

def deleteForMetadata (order : List Text) (fault : Text → Option DeleteFault) (write : MetadataWrite) :
    DesktopSecrets × Except Text Nat :=
  match deleteKeys fault secrets order with
  | (after, .error error) => (after, .error error)
  | (after, .ok (deleted, remaining)) =>
    let (after, result) := after.writeMetadata remaining write
    (after, result.map fun _ => deleted)

def loadIntoEnv (fault : Text → Option LoadFault) (secrets : DesktopSecrets) :
    List Text → DesktopSecrets × Except Text Unit
  | [] => (secrets, .ok ())
  | key :: rest =>
    if (secrets.env.lookup key).isSome then loadIntoEnv fault secrets rest
    else
      match fault key with
      | some .opening => (secrets, .error ("Failed to open desktop keyring entry for '" ++ key ++ "'"))
      | some .reading => loadIntoEnv fault secrets rest
      | none =>
        match secrets.keyring.lookup key with
        | some value => loadIntoEnv fault { secrets with env := Assoc.insert secrets.env (key, value) } rest
        | none => loadIntoEnv fault secrets rest

inductive Action where
  | save (entries : List (Text × Text)) (fault : Text → Option StoreFault) (write : MetadataWrite)
  | restart (env : List (Text × Text)) (order : List Text) (fault : Text → Option LoadFault)
  | delete (order : List Text) (fault : Text → Option DeleteFault) (write : MetadataWrite)

def step (secrets : DesktopSecrets) : Action → Option DesktopSecrets
  | .save entries fault write => some (secrets.store entries fault write).1
  | .restart env order fault =>
    if order.Perm secrets.readMetadata then some (loadIntoEnv fault { secrets with env } order).1 else none
  | .delete order fault write =>
    if order.Perm secrets.readMetadata then some (secrets.deleteForMetadata order fault write).1 else none

def Listed : Prop := ∀ key, (secrets.keyring.lookup key).isSome = true → key ∈ secrets.readMetadata

/-- The keys whose entries a save writes before it fails. -/
def writtenKeys (fault : Text → Option StoreFault) : List (Text × Text) → List Text
  | [] => []
  | (key, _) :: rest =>
    match fault key with
    | none => key :: writtenKeys fault rest
    | some failure => if failure.writes then [key] else []

/-- A save that gets to the metadata has every entry of the keyring among its own, and one that does not writes
only entries that are listed. A cleanup loses the list only when it has deleted everything. -/
def Covers : Action → Prop
  | .save entries fault write =>
    if entries.all fun entry => (fault entry.1).isNone then
      match write with
      | .written => ∀ entry ∈ secrets.keyring, entry.1 ∈ entries.map Prod.fst
      | .failed false => ∀ entry ∈ entries, entry.1 ∈ secrets.readMetadata
      | .failed true => secrets.keyring = [] ∧ entries = []
    else ∀ key ∈ writtenKeys fault entries, key ∈ secrets.readMetadata
  | .restart _ _ _ => True
  | .delete order fault write =>
    match write with
    | .failed true => (∃ key ∈ order, fault key = some .opening) ∨
        ∀ key ∈ order, fault key = some .deleting → secrets.keyring.lookup key = none
    | _ => True

instance : DecidablePred secrets.Covers
  | .save entries fault write => by
    unfold Covers
    dsimp only
    cases write with
    | written => infer_instance
    | failed truncated => cases truncated <;> infer_instance
  | .restart _ _ _ => inferInstanceAs (Decidable True)
  | .delete order fault write => by
    unfold Covers
    dsimp only
    cases write with
    | written => infer_instance
    | failed truncated => cases truncated <;> infer_instance

/-! ### Saves -/

section
variable {secrets after : DesktopSecrets}

theorem isSome_lookup {entries : List (Text × Text)} {key : Text} :
    (entries.lookup key).isSome = true ↔ ∃ entry ∈ entries, entry.1 = key := by
  constructor
  · intro some_
    obtain ⟨value, found⟩ := Option.isSome_iff_exists.mp some_
    exact ⟨(key, value), Assoc.mem_of_lookup found, rfl⟩
  · rintro ⟨⟨name, value⟩, member, rfl⟩
    by_contra none
    rw [Bool.not_eq_true, Option.isSome_eq_false_iff, Option.isNone_iff_eq_none, Assoc.lookup_eq_none] at none
    exact none value member

theorem mem_readMetadata {key : Text} {keys : List Text} (metadata : secrets.metadata = some keys) :
    key ∈ secrets.readMetadata ↔ key ∈ keys := by
  rw [readMetadata, metadata, Option.getD_some, List.mem_dedup]

theorem mem_writeMetadata {key : Text} {keys : List Text} :
    key ∈ (secrets.writeMetadata keys .written).1.readMetadata ↔ key ∈ keys := by
  have listed : (secrets.writeMetadata keys .written).1.metadata = some (keys.insertionSort fun left right => textLe left right = true).dedup := rfl
  rw [mem_readMetadata listed, List.mem_dedup, List.mem_insertionSort]

theorem isSome_lookup_insert {keyring : List (Text × Text)} {name key value : Text} :
    ((Assoc.insert keyring (name, value)).lookup key).isSome = true ↔ key = name ∨ (keyring.lookup key).isSome = true := by
  rw [Assoc.lookup_insert]
  by_cases same : key = name
  · rw [if_pos (beq_iff_eq.mpr same)]
    exact iff_of_true rfl (.inl same)
  · rw [if_neg fun equal => same (eq_of_beq equal)]
    exact (or_iff_right same).symm

theorem storeKeys_keyring (fault : Text → Option StoreFault) (entries keyring : List (Text × Text)) (key : Text) :
    ((storeKeys fault keyring entries).1.lookup key).isSome = true ↔
      key ∈ writtenKeys fault entries ∨ (keyring.lookup key).isSome = true := by
  induction entries generalizing keyring with
  | nil => simp [storeKeys, writtenKeys]
  | cons entry rest ih =>
    obtain ⟨name, value⟩ := entry
    unfold storeKeys writtenKeys
    cases failing : fault name with
    | none =>
      dsimp only
      rw [ih, isSome_lookup_insert, List.mem_cons, or_left_comm, or_assoc]
    | some failure =>
      dsimp only
      cases failure.writes with
      | true =>
        rw [if_pos rfl, if_pos rfl, isSome_lookup_insert, List.mem_singleton]
      | false =>
        rw [if_neg Bool.false_ne_true, if_neg Bool.false_ne_true]
        simp

theorem storeKeys_ok {fault : Text → Option StoreFault} {entries : List (Text × Text)} (keyring : List (Text × Text))
    (all : (entries.all fun entry => (fault entry.1).isNone) = true) :
    (storeKeys fault keyring entries).2 = .ok () ∧ writtenKeys fault entries = entries.map Prod.fst := by
  induction entries generalizing keyring with
  | nil => exact ⟨rfl, rfl⟩
  | cons entry rest ih =>
    obtain ⟨name, value⟩ := entry
    rw [List.all_cons, Bool.and_eq_true] at all
    have fine := Option.isNone_iff_eq_none.mp all.1
    unfold storeKeys writtenKeys
    rw [fine]
    obtain ⟨stored, written⟩ := ih (Assoc.insert keyring (name, value)) all.2
    exact ⟨stored, congrArg (name :: ·) written⟩

theorem storeKeys_error {fault : Text → Option StoreFault} {entries : List (Text × Text)} (keyring : List (Text × Text))
    (fails : ¬(entries.all fun entry => (fault entry.1).isNone) = true) :
    ∃ error, (storeKeys fault keyring entries).2 = .error error := by
  induction entries generalizing keyring with
  | nil => exact absurd rfl fails
  | cons entry rest ih =>
    obtain ⟨name, value⟩ := entry
    unfold storeKeys
    cases failing : fault name with
    | some failure => exact ⟨_, rfl⟩
    | none =>
      apply ih
      intro all
      rw [List.all_cons, all, Bool.and_true] at fails
      exact fails (Option.isNone_iff_eq_none.mpr failing)

theorem listed_save {entries : List (Text × Text)} {fault : Text → Option StoreFault} {write : MetadataWrite}
    (listed : secrets.Listed) :
    (secrets.store entries fault write).1.Listed ↔ secrets.Covers (.save entries fault write) := by
  have keyring := storeKeys_keyring fault entries secrets.keyring
  unfold store
  cases stored : storeKeys fault secrets.keyring entries with
  | mk after result =>
    rw [stored] at keyring
    dsimp only at keyring
    by_cases all : (entries.all fun entry => (fault entry.1).isNone) = true
    · obtain ⟨ok, written⟩ := storeKeys_ok secrets.keyring all
      rw [stored] at ok
      obtain rfl : result = .ok () := ok
      rw [written] at keyring
      unfold Covers
      dsimp only
      rw [if_pos all]
      cases write with
      | written =>
        constructor
        · intro covered entry member
          have there : (secrets.keyring.lookup entry.1).isSome = true := isSome_lookup.mpr ⟨entry, member, rfl⟩
          exact mem_writeMetadata.mp (covered entry.1 ((keyring entry.1).mpr (.inr there)))
        · intro covered key there
          apply mem_writeMetadata.mpr
          rcases (keyring key).mp there with stored | old
          · exact stored
          · obtain ⟨entry, member, rfl⟩ := isSome_lookup.mp old
            exact covered entry member
      | failed truncated =>
        cases truncated with
        | false =>
          constructor
          · intro covered entry member
            exact covered entry.1 ((keyring entry.1).mpr (.inl (List.mem_map_of_mem member)))
          · intro covered key there
            rcases (keyring key).mp there with stored | old
            · obtain ⟨entry, member, rfl⟩ := List.mem_map.mp stored
              exact covered entry member
            · exact listed key old
        | true =>
          constructor
          · intro covered
            have none : ∀ key, ¬(after.lookup key).isSome = true := fun key there => List.not_mem_nil (covered key there)
            constructor
            · apply List.eq_nil_iff_forall_not_mem.mpr
              intro entry member
              exact none entry.1 ((keyring entry.1).mpr (.inr (isSome_lookup.mpr ⟨entry, member, rfl⟩)))
            · apply List.eq_nil_iff_forall_not_mem.mpr
              intro entry member
              exact none entry.1 ((keyring entry.1).mpr (.inl (List.mem_map_of_mem member)))
          · rintro ⟨empty, rfl⟩ key there
            rcases (keyring key).mp there with stored | old
            · cases stored
            · rw [empty] at old
              cases old
    · obtain ⟨error, failed⟩ := storeKeys_error secrets.keyring all
      rw [stored] at failed
      obtain rfl : result = .error error := failed
      unfold Covers
      dsimp only
      rw [if_neg all]
      constructor
      · intro covered key written
        exact covered key ((keyring key).mpr (.inl written))
      · intro covered key there
        rcases (keyring key).mp there with written | old
        · exact covered key written
        · exact listed key old

/-! ### Cleanups -/

theorem deleteKeys_metadata (fault : Text → Option DeleteFault) (secrets : DesktopSecrets) (order : List Text) :
    (deleteKeys fault secrets order).1.metadata = secrets.metadata := by
  induction order generalizing secrets with
  | nil => rfl
  | cons key rest ih =>
    unfold deleteKeys
    cases fault key with
    | none => exact ih _
    | some failure =>
      cases failure with
      | opening => rfl
      | deleting => exact ih _

theorem isSome_lookup_erase {keyring : List (Text × Text)} {erased key : Text} :
    ((Assoc.erase keyring erased).lookup key).isSome = true ↔ key ≠ erased ∧ (keyring.lookup key).isSome = true := by
  rw [Assoc.lookup_erase]
  by_cases same : key = erased
  · rw [if_pos (beq_iff_eq.mpr same)]
    exact iff_of_false Bool.false_ne_true fun both => both.1 same
  · rw [if_neg fun equal => same (eq_of_beq equal)]
    exact (and_iff_right same).symm

theorem deleteKeys_keyring {fault : Text → Option DeleteFault} {order : List Text} {key : Text} (secrets : DesktopSecrets)
    (left : ((deleteKeys fault secrets order).1.keyring.lookup key).isSome = true) :
    (secrets.keyring.lookup key).isSome = true := by
  induction order generalizing secrets with
  | nil => exact left
  | cons first rest ih =>
    unfold deleteKeys at left
    cases failing : fault first with
    | none =>
      rw [failing] at left
      exact (isSome_lookup_erase.mp (ih _ left)).2
    | some failure =>
      rw [failing] at left
      cases failure with
      | opening => exact left
      | deleting => exact ih _ left

theorem deleteKeys_opening {fault : Text → Option DeleteFault} {order : List Text} (secrets : DesktopSecrets)
    (opening : ∃ key ∈ order, fault key = some .opening) :
    ∃ error, (deleteKeys fault secrets order).2 = .error error := by
  induction order generalizing secrets with
  | nil =>
    obtain ⟨key, member, -⟩ := opening
    cases member
  | cons first rest ih =>
    unfold deleteKeys
    cases failing : fault first with
    | none =>
      obtain ⟨key, member, opening⟩ := opening
      rcases List.mem_cons.mp member with rfl | member
      · rw [failing] at opening
        cases opening
      · obtain ⟨error, failed⟩ := ih { secrets with
          keyring := Assoc.erase secrets.keyring first, env := Assoc.erase secrets.env first } ⟨key, member, opening⟩
        exact ⟨error, congrArg (Except.map _) failed⟩
    | some failure =>
      cases failure with
      | opening => exact ⟨_, rfl⟩
      | deleting =>
        obtain ⟨key, member, opening⟩ := opening
        rcases List.mem_cons.mp member with rfl | member
        · rw [failing] at opening
          cases opening
        · obtain ⟨error, failed⟩ := ih secrets ⟨key, member, opening⟩
          exact ⟨error, congrArg (Except.map _) failed⟩

/-- A cleanup that opens every entry leaves those that it could not delete, and says which they are. -/
theorem deleteKeys_ok {fault : Text → Option DeleteFault} {order : List Text} (secrets : DesktopSecrets)
    (opens : ∀ key ∈ order, fault key ≠ some .opening) :
    (∃ deleted, (deleteKeys fault secrets order).2 = .ok (deleted, order.filter fun key => fault key = some .deleting)) ∧
      ∀ key, ((deleteKeys fault secrets order).1.keyring.lookup key).isSome = true ↔
        (secrets.keyring.lookup key).isSome = true ∧ ¬(key ∈ order ∧ fault key = none) := by
  induction order generalizing secrets with
  | nil => exact ⟨⟨0, rfl⟩, fun key => by simp [deleteKeys]⟩
  | cons first rest ih =>
    have later := fun key member => opens key (List.mem_cons_of_mem first member)
    unfold deleteKeys
    cases failing : fault first with
    | none =>
      obtain ⟨⟨deleted, done⟩, left⟩ := ih { secrets with
        keyring := Assoc.erase secrets.keyring first, env := Assoc.erase secrets.env first } later
      constructor
      · rw [List.filter_cons_of_neg (by simp [failing])]
        exact ⟨_, congrArg (Except.map _) done⟩
      · intro key
        dsimp only
        rw [left, isSome_lookup_erase, List.mem_cons]
        by_cases same : key = first
        · subst same
          simp [failing]
        · simp [same]
    | some failure =>
      cases failure with
      | opening => exact absurd failing (opens first List.mem_cons_self)
      | deleting =>
        obtain ⟨⟨deleted, done⟩, left⟩ := ih secrets later
        constructor
        · rw [List.filter_cons_of_pos (by simp [failing])]
          exact ⟨_, congrArg (Except.map _) done⟩
        · intro key
          dsimp only
          rw [left, List.mem_cons]
          by_cases same : key = first
          · subst same
            simp [failing]
          · simp [same]

theorem listed_delete {order : List Text} {fault : Text → Option DeleteFault} {write : MetadataWrite}
    (listed : secrets.Listed) (complete : order.Perm secrets.readMetadata) :
    (secrets.deleteForMetadata order fault write).1.Listed ↔ secrets.Covers (.delete order fault write) := by
  have metadata := deleteKeys_metadata fault secrets order
  unfold deleteForMetadata
  cases result : deleteKeys fault secrets order with
  | mk after outcome =>
    rw [result] at metadata
    have listing : after.readMetadata = secrets.readMetadata := by rw [readMetadata, readMetadata, metadata]
    have subset : ∀ key, (after.keyring.lookup key).isSome = true → (secrets.keyring.lookup key).isSome = true := by
      intro key there
      apply @deleteKeys_keyring fault order key
      rw [result]
      exact there
    by_cases opening : ∃ key ∈ order, fault key = some .opening
    · obtain ⟨error, failed⟩ := deleteKeys_opening secrets opening
      rw [result] at failed
      obtain rfl : outcome = .error error := failed
      refine iff_of_true ?_ ?_
      · intro key there
        exact listing ▸ listed key (subset key there)
      · cases write with
        | written => trivial
        | failed truncated =>
          cases truncated with
          | false => trivial
          | true => exact .inl opening
    · have opens : ∀ key ∈ order, fault key ≠ some .opening := fun key member failing => opening ⟨key, member, failing⟩
      obtain ⟨⟨deleted, done⟩, left⟩ := deleteKeys_ok secrets opens
      rw [result] at done left
      obtain rfl : outcome = .ok (deleted, _) := done
      have kept : ∀ key, (after.keyring.lookup key).isSome = true → key ∈ order ∧ fault key = some .deleting := by
        intro key there
        obtain ⟨before, notDeleted⟩ := (left key).mp there
        have member := complete.mem_iff.mpr (listed key before)
        cases failing : fault key with
        | none => exact absurd ⟨member, failing⟩ notDeleted
        | some failure =>
          cases failure with
          | opening => exact absurd failing (opens key member)
          | deleting => exact ⟨member, rfl⟩
      cases write with
      | written =>
        refine iff_of_true ?_ trivial
        intro key there
        apply mem_writeMetadata.mpr
        rw [List.mem_filter, decide_eq_true_eq]
        exact kept key there
      | failed truncated =>
        cases truncated with
        | false =>
          refine iff_of_true ?_ trivial
          intro key there
          exact listing ▸ listed key (subset key there)
        | true =>
          constructor
          · intro gone
            right
            intro key member failing
            by_contra there
            have before := Option.isSome_iff_ne_none.mpr there
            have after := (left key).mpr ⟨before, fun both => by
              rw [failing] at both
              cases both.2⟩
            exact List.not_mem_nil (gone key after)
          · intro covers key there
            obtain ⟨member, failing⟩ := kept key there
            have before := subset key there
            rw [covers.resolve_left opening key member failing] at before
            cases before

theorem loadIntoEnv_keyring (fault : Text → Option LoadFault) (secrets : DesktopSecrets) (order : List Text) :
    (loadIntoEnv fault secrets order).1.keyring = secrets.keyring ∧
      (loadIntoEnv fault secrets order).1.metadata = secrets.metadata := by
  induction order generalizing secrets with
  | nil => exact ⟨rfl, rfl⟩
  | cons key rest ih =>
    unfold loadIntoEnv
    split
    · exact ih secrets
    · split
      · exact ⟨rfl, rfl⟩
      · exact ih secrets
      · split
        · exact ih _
        · exact ih secrets

theorem loadIntoEnv_stays {fault : Text → Option LoadFault} {secrets : DesktopSecrets} {order : List Text} {key value : Text}
    (there : secrets.env.lookup key = some value) : (loadIntoEnv fault secrets order).1.env.lookup key = some value := by
  induction order generalizing secrets with
  | nil => exact there
  | cons first rest ih =>
    unfold loadIntoEnv
    split
    · exact ih there
    · next absent =>
      split
      · exact there
      · exact ih there
      · split
        · apply ih
          dsimp only
          exact Assoc.lookup_insert_free (Option.not_isSome_iff_eq_none.mp absent) there _
        · exact ih there

/-- A start that reads every entry has the values of all that are listed and that the environment lacks. -/
theorem loadIntoEnv_loads {secrets : DesktopSecrets} {order : List Text} {key value : Text} (member : key ∈ order)
    (found : secrets.keyring.lookup key = some value) (absent : secrets.env.lookup key = none) :
    (loadIntoEnv (fun _ => none) secrets order).1.env.lookup key = some value := by
  induction order generalizing secrets with
  | nil => cases member
  | cons first rest ih =>
    unfold loadIntoEnv
    by_cases same : key = first
    · subst same
      rw [absent, if_neg (by decide)]
      dsimp only
      rw [found]
      apply loadIntoEnv_stays
      rw [Assoc.lookup_insert]
      exact if_pos (beq_self_eq_true key)
    · have inside := (List.mem_cons.mp member).resolve_left same
      split
      · exact ih inside found absent
      · dsimp only
        split
        · next value' _ =>
          refine @ih { secrets with env := Assoc.insert secrets.env (first, value') } inside found ?_
          dsimp only
          rw [Assoc.lookup_insert_other same]
          exact absent
        · exact ih inside found absent

/-! ### Other entries -/

theorem storeKeys_other {key : Text} (fault : Text → Option StoreFault) {entries : List (Text × Text)}
    (other : key ∉ entries.map Prod.fst) (keyring : List (Text × Text)) :
    (storeKeys fault keyring entries).1.lookup key = keyring.lookup key := by
  induction entries generalizing keyring with
  | nil => rfl
  | cons entry rest ih =>
    obtain ⟨name, value⟩ := entry
    rw [List.map_cons, List.mem_cons, not_or] at other
    have inserted : (Assoc.insert keyring (name, value)).lookup key = keyring.lookup key :=
      Assoc.lookup_insert_other other.1 keyring value
    unfold storeKeys
    split
    · exact (ih other.2 _).trans inserted
    · dsimp only
      split
      · exact inserted
      · rfl

theorem deleteKeys_other {key : Text} (fault : Text → Option DeleteFault) {order : List Text} (other : key ∉ order)
    (secrets : DesktopSecrets) :
    (deleteKeys fault secrets order).1.keyring.lookup key = secrets.keyring.lookup key := by
  induction order generalizing secrets with
  | nil => rfl
  | cons first rest ih =>
    rw [List.mem_cons, not_or] at other
    unfold deleteKeys
    split
    · rfl
    · exact ih other.2 secrets
    · exact (ih other.2 _).trans (Assoc.lookup_filter_ne other.1)

theorem deleteKeys_remaining {fault : Text → Option DeleteFault} {order : List Text} {secrets : DesktopSecrets}
    {deleted : Nat} {remaining : List Text} (done : (deleteKeys fault secrets order).2 = .ok (deleted, remaining)) :
    remaining ⊆ order := by
  by_cases opening : ∃ key ∈ order, fault key = some .opening
  · obtain ⟨error, failed⟩ := deleteKeys_opening secrets opening
    rw [failed] at done
    cases done
  · obtain ⟨⟨_, left⟩, -⟩ := deleteKeys_ok secrets fun key member failing => opening ⟨key, member, failing⟩
    rw [left] at done
    cases done
    exact List.filter_subset_self order

theorem writeMetadata_unlisted {key : Text} (unlisted : key ∉ secrets.readMetadata) {keys : List Text}
    (other : key ∉ keys) (write : MetadataWrite) :
    (secrets.writeMetadata keys write).1.keyring = secrets.keyring ∧
      key ∉ (secrets.writeMetadata keys write).1.readMetadata := by
  cases write with
  | written => exact ⟨rfl, fun member => other (mem_writeMetadata.mp member)⟩
  | failed truncated =>
    cases truncated with
    | true => exact ⟨rfl, List.not_mem_nil⟩
    | false => exact ⟨rfl, unlisted⟩

/-- An entry that is neither listed nor stored is left alone and stays unlisted. -/
theorem step_other {action : Action} {key : Text} (unlisted : key ∉ secrets.readMetadata)
    (other : ∀ entries fault write, action = .save entries fault write → key ∉ entries.map Prod.fst)
    (stepped : secrets.step action = some after) :
    after.keyring.lookup key = secrets.keyring.lookup key ∧ key ∉ after.readMetadata := by
  cases action with
  | save entries fault write =>
    have outside := other entries fault write rfl
    have kept := storeKeys_other fault outside secrets.keyring
    obtain rfl := Option.some.inj stepped
    unfold store
    split
    · next stored =>
      rw [stored] at kept
      exact ⟨kept, unlisted⟩
    · next keyring stored =>
      rw [stored] at kept
      obtain ⟨same, gone⟩ := @writeMetadata_unlisted { secrets with keyring } key unlisted _ outside write
      exact ⟨by rw [same]; exact kept, gone⟩
  | restart env order fault =>
    unfold step at stepped
    dsimp only at stepped
    split at stepped
    · obtain rfl := Option.some.inj stepped
      obtain ⟨keyring, metadata⟩ := loadIntoEnv_keyring fault { secrets with env } order
      rw [keyring, readMetadata, metadata]
      exact ⟨rfl, unlisted⟩
    · cases stepped
  | delete order fault write =>
    unfold step at stepped
    dsimp only at stepped
    split at stepped
    · next complete =>
      obtain rfl := Option.some.inj stepped
      have outside : key ∉ order := fun member => unlisted (complete.mem_iff.mp member)
      have kept := deleteKeys_other fault outside secrets
      have metadata := deleteKeys_metadata fault secrets order
      unfold deleteForMetadata
      cases result : deleteKeys fault secrets order with
      | mk after outcome =>
        rw [result] at kept metadata
        have stays : key ∉ after.readMetadata := by rwa [readMetadata, metadata]
        cases outcome with
        | error error => exact ⟨kept, stays⟩
        | ok left =>
          obtain ⟨deleted, remaining⟩ := left
          have inside : remaining ⊆ order := deleteKeys_remaining (congrArg Prod.snd result)
          obtain ⟨same, gone⟩ := writeMetadata_unlisted stays (fun member => outside (inside member)) write
          exact ⟨by rw [same]; exact kept, gone⟩
    · cases stepped

/-! ### Runs -/

/-- A step keeps the list complete exactly when it covers what it writes and loses. -/
theorem listed_step {action : Action} (listed : secrets.Listed) (stepped : secrets.step action = some after) :
    after.Listed ↔ secrets.Covers action := by
  cases action with
  | save entries fault write =>
    obtain rfl := Option.some.inj stepped
    exact listed_save listed
  | restart env order fault =>
    unfold step at stepped
    dsimp only at stepped
    split at stepped
    · obtain rfl := Option.some.inj stepped
      obtain ⟨keyring, metadata⟩ := loadIntoEnv_keyring fault { secrets with env } order
      refine iff_of_true ?_ trivial
      intro key there
      rw [keyring] at there
      rw [readMetadata, metadata]
      exact listed key there
    · cases stepped
  | delete order fault write =>
    unfold step at stepped
    dsimp only at stepped
    split at stepped
    · next complete =>
      obtain rfl := Option.some.inj stepped
      exact listed_delete listed complete
    · cases stepped

/-- In a run whose steps cover what they write and lose, every entry is listed, so a cleanup can delete them all and
a start can load them all. -/
theorem covered_run_listed {env : List (Text × Text)} {actions : List Action}
    (covered : Steps.Careful step Covers { env } actions) (played : Steps.play step { env } actions = some secrets) :
    secrets.Listed ∧
      (∀ order, order.Perm secrets.readMetadata →
        (secrets.deleteForMetadata order (fun _ => none) .written).1.keyring = []) ∧
      ∀ env order, order.Perm secrets.readMetadata → ∀ key value, secrets.keyring.lookup key = some value →
        env.lookup key = none →
          (loadIntoEnv (fun _ => none) { secrets with env } order).1.env.lookup key = some value := by
  have kept : ∀ {secrets : DesktopSecrets} {action next}, secrets.Listed → secrets.Covers action →
      secrets.step action = some next → next.Listed := fun listed covers stepped => (listed_step listed stepped).mpr covers
  have initial : Listed { env } := fun key there => by cases there
  have listed := Steps.play_invariant kept initial covered played
  refine ⟨listed, ?_, ?_⟩
  · intro order complete
    obtain ⟨⟨deleted, done⟩, left⟩ := @deleteKeys_ok (fun _ => none) order secrets nofun
    have cleaned : (secrets.deleteForMetadata order (fun _ => none) .written).1.keyring =
        (deleteKeys (fun _ => none) secrets order).1.keyring := by
      unfold deleteForMetadata
      cases result : deleteKeys (fun _ => none) secrets order with
      | mk after outcome =>
        rw [result] at done
        obtain rfl : outcome = .ok (deleted, _) := done
        rfl
    rw [cleaned]
    apply List.eq_nil_iff_forall_not_mem.mpr
    intro entry member
    obtain ⟨before, notDeleted⟩ := (left entry.1).mp (isSome_lookup.mpr ⟨entry, member, rfl⟩)
    exact notDeleted ⟨complete.mem_iff.mpr (listed entry.1 before), rfl⟩
  · intro env order complete key value found absent
    have member := complete.mem_iff.mpr (listed key (Option.isSome_iff_exists.mpr ⟨value, found⟩))
    exact loadIntoEnv_loads member found absent

end

def saving (entries : List (Text × Text)) : Action := .save entries (fun _ => none) .written

def grown : List Action := [saving [("A", "1")], saving [("A", "1"), ("B", "2")]]

theorem covered_run_listed_grown : ∃ secrets, Steps.play step {} grown = some secrets ∧ secrets.Listed := by
  have covered : Steps.Careful step Covers { env := [] } grown := by decide
  exact ⟨_, rfl, (covered_run_listed covered rfl).1⟩

def replaced : List Action := [saving [("A", "1")], saving [("B", "2")]]

/-- The first secret is in the keyring, is not listed any more, and a cleanup leaves it. -/
theorem dropped_secret_unlisted : ∃ secrets, Steps.play step {} replaced = some secrets ∧ ¬secrets.Listed ∧
    (secrets.deleteForMetadata secrets.readMetadata (fun _ => none) .written).1.keyring =
      [(("A" : Text), ("1" : Text))] := by
  refine ⟨_, rfl, ?_, by decide⟩
  intro listed
  have there := listed ("A" : Text) (by decide)
  revert there
  decide

end DesktopSecrets

end MqBridge.Desktop
