import MqBridgeApp.Workspace.DirtyState
import MqBridgeApp.Workspace.Entities
import MqBridgeApp.Lib.Steps

/-!
# The list of publishers in the browser

The list is edited, saved as a section or with the workspace, and saved when a publisher is deleted
from it. After each of these the tracker of the section gets a new baseline, after a deletion also
when the server rejected it.
-/

namespace MqBridge.Workspace
open Text

structure PublisherSession where
  publishers : List Record
  tracker : DirtyTracker
  /-- The list that the server last accepted or returned. -/
  known : List Record

inductive Reply where
  | rejected
  /-- The server accepted it, and its configuration could not be fetched. -/
  | unread
  | stored (publishers : List Record)

inductive PublisherAction where
  | edit (publishers : List Record)
  | save (reply : Reply)
  | delete (index : Nat) (reply : Reply)
  | saveWorkspace (reply : Reply)

def listValue (publishers : List Record) : Json := .arr (publishers.map .obj)

namespace PublisherSession

def dirty (session : PublisherSession) : Bool := isDirty session.tracker (listValue session.publishers)

def markSectionSaved (session : PublisherSession) (savedValue : List Record) : PublisherSession :=
  { session with tracker := { baseline := serializeSectionState (cloneSectionState (listValue savedValue)) } }

/-- Saves the section, and gives what was read back. -/
def saveConfigSection (session : PublisherSession) : Reply → PublisherSession × Option (List Record)
  | .rejected => (session, none)
  | .unread => ({ session with known := session.publishers }, none)
  | .stored publishers =>
    (markSectionSaved { session with publishers, known := publishers } publishers, some publishers)

section
variable (forms : Forms)

def initPublishers (stored : List Record) : PublisherSession :=
  let publishers := stored.map (normalizePublisher forms)
  { publishers
    tracker := createDirtyTracker (listValue publishers) none (some (listValue publishers))
    known := stored }

/-- The list that was read back takes the place of the one that was edited. -/
def takeSaved (session : PublisherSession) : Option (List Record) → PublisherSession
  | some saved => { session with publishers := saved.map (normalizePublisher forms) }
  | none => session

def saveCurrentPublisherAction (session : PublisherSession) (reply : Reply) : PublisherSession :=
  let (session, saved) := session.saveConfigSection reply
  session.takeSaved forms saved

def deleteCurrentPublisherAction (session : PublisherSession) (selectedIndex : Nat) (reply : Reply) :
    PublisherSession :=
  let session := { session with publishers := session.publishers.eraseIdx selectedIndex }
  let (session, saved) := session.saveConfigSection reply
  let session := session.takeSaved forms saved
  session.markSectionSaved session.publishers

def saveWorkspace (session : PublisherSession) : Reply → PublisherSession
  | .rejected => session
  | .unread => { session with known := session.publishers }
  | .stored saved =>
    -- the view starts over with the list, and its tracker keeps the baseline until the section is marked
    let publishers := saved.map (normalizePublisher forms)
    let tracker := createDirtyTracker (listValue publishers) (some session.tracker) (some (listValue publishers))
    let session : PublisherSession := { publishers, tracker, known := saved }
    session.markSectionSaved session.publishers

def step (session : PublisherSession) : PublisherAction → Option PublisherSession
  | .edit publishers => some { session with publishers }
  | .save reply => some (session.saveCurrentPublisherAction forms reply)
  | .delete index reply =>
    if index < session.publishers.length then some (session.deleteCurrentPublisherAction forms index reply) else none
  | .saveWorkspace reply => some (session.saveWorkspace forms reply)

/-- The lists are equal up to the order of keys, as they are or once the known one is normalised. -/
def SameUpToNormalize (session : PublisherSession) : Prop :=
  (listValue session.publishers).same (listValue session.known) = true ∨
    (listValue session.publishers).same (listValue (session.known.map (normalizePublisher forms))) = true

/-- A list that a server returns has no member `__proto__`, nor has it once it is normalised. -/
def ProperReply : Reply → Prop
  | .stored publishers =>
    Proper (listValue publishers) ∧ Proper (listValue (publishers.map (normalizePublisher forms)))
  | .rejected | .unread => True

/-- A deletion is accepted, and what another save stored is read back. No list has a member `__proto__`. -/
def Answered (_ : PublisherSession) : PublisherAction → Prop
  | .edit publishers => Proper (listValue publishers)
  | .save reply | .saveWorkspace reply => reply ≠ .unread ∧ ProperReply forms reply
  | .delete _ reply => reply ≠ .rejected ∧ ProperReply forms reply

instance : (reply : Reply) → Decidable (ProperReply forms reply)
  | .stored _ => inferInstanceAs (Decidable (_ ∧ _))
  | .rejected | .unread => isTrue trivial

def BasedOn (session : PublisherSession) (publishers : List Record) : Prop :=
  Proper (listValue publishers) ∧ session.tracker.baseline = serializeSectionState (listValue publishers)

/-- The baseline is the text of what the server is known to have. -/
structure Based (session : PublisherSession) : Prop where
  shown : Proper (listValue session.publishers)
  known : session.BasedOn session.known ∨ session.BasedOn (session.known.map (normalizePublisher forms))

variable {forms}

theorem markSectionSaved_baseline (session : PublisherSession) (savedValue : List Record) :
    (session.markSectionSaved savedValue).tracker.baseline = serializeSectionState (listValue savedValue) :=
  serialize_clone (listValue savedValue)

theorem proper_eraseIdx {publishers : List Record} (proper : Proper (listValue publishers)) (index : Nat) :
    Proper (listValue (publishers.eraseIdx index)) := by
  refine proper_arr.mpr fun item member => ?_
  obtain ⟨publisher, inside, rfl⟩ := List.mem_map.mp member
  exact proper_arr.mp proper _ (List.mem_map_of_mem (List.mem_of_mem_eraseIdx inside))

theorem based_init {stored : List Record} (proper : Proper (listValue (stored.map (normalizePublisher forms)))) :
    (initPublishers forms stored).Based forms := ⟨proper, .inr ⟨proper, rfl⟩⟩

theorem Based.save {session : PublisherSession} {reply : Reply} (based : session.Based forms)
    (read : reply ≠ .unread) (proper : ProperReply forms reply) :
    (session.saveCurrentPublisherAction forms reply).Based forms := by
  cases reply with
  | rejected => exact based
  | unread => exact absurd rfl read
  | stored publishers =>
    exact ⟨proper.2, .inl ⟨proper.1, markSectionSaved_baseline { session with publishers, known := publishers } publishers⟩⟩

theorem Based.delete {session : PublisherSession} {index : Nat} {reply : Reply} (based : session.Based forms)
    (accepted : reply ≠ .rejected) (proper : ProperReply forms reply) :
    (session.deleteCurrentPublisherAction forms index reply).Based forms := by
  cases reply with
  | rejected => exact absurd rfl accepted
  | unread =>
    have sent := proper_eraseIdx based.shown index
    exact ⟨sent, .inl ⟨sent, markSectionSaved_baseline _ _⟩⟩
  | stored publishers => exact ⟨proper.2, .inr ⟨proper.2, markSectionSaved_baseline _ _⟩⟩

theorem Based.saveWorkspace {session : PublisherSession} {reply : Reply} (based : session.Based forms)
    (read : reply ≠ .unread) (proper : ProperReply forms reply) : (session.saveWorkspace forms reply).Based forms := by
  cases reply with
  | rejected => exact based
  | unread => exact absurd rfl read
  | stored publishers => exact ⟨proper.2, .inr ⟨proper.2, markSectionSaved_baseline _ _⟩⟩

theorem Based.step {session next : PublisherSession} {action : PublisherAction} (based : session.Based forms)
    (answered : Answered forms session action) (stepped : session.step forms action = some next) : next.Based forms := by
  cases action with
  | edit publishers =>
    obtain rfl := Option.some.inj stepped
    exact ⟨answered, based.known⟩
  | save reply =>
    obtain rfl := Option.some.inj stepped
    exact based.save answered.1 answered.2
  | delete index reply =>
    obtain ⟨-, same⟩ := Option.ite_none_right_eq_some.mp stepped
    obtain rfl := Option.some.inj same
    exact based.delete answered.1 answered.2
  | saveWorkspace reply =>
    obtain rfl := Option.some.inj stepped
    exact based.saveWorkspace answered.1 answered.2

/-- In a session in which every deletion is accepted, every other accepted save is read back and no list has a member
`__proto__`, a section that is not dirty holds what the server last accepted or returned. -/
theorem clean_is_sound (forms : Forms) (stored : List Record) (actions : List PublisherAction)
    {after : PublisherSession} (proper : Proper (listValue (stored.map (normalizePublisher forms))))
    (answered : Steps.Careful (step forms) (Answered forms) (initPublishers forms stored) actions)
    (played : Steps.play (step forms) (initPublishers forms stored) actions = some after)
    (clean : after.dirty = false) : after.SameUpToNormalize forms := by
  have based := Steps.play_invariant Based.step (based_init proper) answered played
  have text : serializeSectionState (listValue after.publishers) = after.tracker.baseline := by
    simpa [dirty, isDirty] using clean
  rcases based.known with ⟨known, baseline⟩ | ⟨normalized, baseline⟩
  · exact .inl (same_of_serialize based.shown known (text.trans baseline))
  · exact .inr (same_of_serialize based.shown normalized (text.trans baseline))

end

end PublisherSession

def referencedPublisher : Record := [("id", .str "p1"), ("name", .str "audit"), ("endpoint", .obj [])]

namespace PublisherSession

theorem clean_is_sound_deleted :
    ∃ after, Steps.play (step plainForms) (initPublishers plainForms [referencedPublisher])
        [.delete 0 (.stored [])] = some after ∧ after.SameUpToNormalize plainForms := by
  refine ⟨_, rfl, clean_is_sound plainForms [referencedPublisher] [.delete 0 (.stored [])] (by decide +kernel) ?_ rfl ?_⟩
  · refine ⟨⟨?_, by decide +kernel⟩, trivial⟩
    intro rejected
    cases rejected
  · decide +kernel

/-- The section is reported clean although the server kept the publisher. -/
theorem rejected_delete_reported_clean :
    ¬ ∀ (stored : List Record) (actions : List PublisherAction) (after : PublisherSession),
      Steps.play (step plainForms) (initPublishers plainForms stored) actions = some after → after.dirty = false →
        after.SameUpToNormalize plainForms := by
  intro sound
  have same := sound [referencedPublisher] [.delete 0 .rejected] _ rfl (by decide +kernel)
  revert same
  unfold SameUpToNormalize
  decide +kernel

end PublisherSession

end MqBridge.Workspace
