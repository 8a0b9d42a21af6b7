import MqBridgeApp.Config.Save
import MqBridgeApp.Lib.JsonAgree

/-!
# Saved documents

A value is saved without its nulls, and a file format is free to keep the members of an object in any
order. `Shows document data` says that the document is what the data is saved as.
-/

namespace MqBridge.Config

/-- The document holds what the data is saved as, its members in some order. -/
def Shows (document : Json) (data : Data) : Prop :=
  document.Distinct ∧ document.same (stripNulls data.toValue) = true

def SameDocuments (a b : Data) : Prop := ∀ document, Shows document a ↔ Shows document b

def kept (fields : List (Text × Data)) : List (Text × Data) := fields.filter fun field => !field.2.isNull

theorem stripNullItems_eq_map (items : List Data) :
    stripNullItems (Data.toValues items) = items.map fun item => stripNulls item.toValue := by
  induction items with
  | nil => rfl
  | cons item rest ih => rw [Data.toValues, stripNullItems, ih, List.map_cons]

theorem stripNullEntries_eq_map (fields : List (Text × Data)) :
    stripNullEntries (Data.toEntries fields) =
      (kept fields).map fun field => (field.1, stripNulls field.2.toValue) := by
  induction fields with
  | nil => rfl
  | cons field rest ih =>
    obtain ⟨key, value⟩ := field
    rw [Data.toEntries, stripNullEntries, Data.isNull_toValue, ih]
    cases null : value.isNull <;> simp [kept, null]

theorem stripNulls_record (fields : List (Text × Data)) :
    stripNulls (Data.record fields).toValue =
      .obj ((kept fields).map fun field => (field.1, stripNulls field.2.toValue)) := by
  rw [Data.toValue, stripNulls, stripNullEntries_eq_map]

/-- What a document of the data is compared with, where `drops` says that null members are left out. -/
def documentOf (drops : Bool) (data : Data) : Json := if drops then stripNulls data.toValue else data.toValue

def Holds (drops : Bool) (document : Json) (data : Data) : Prop :=
  document.Distinct ∧ document.same (documentOf drops data) = true

theorem shows_iff {document : Json} {data : Data} : Shows document data ↔ Holds true document data := Iff.rfl

def members (drops : Bool) (fields : List (Text × Data)) : List (Text × Data) :=
  fields.filter fun field => !(drops && field.2.isNull)

section Holds
variable {drops : Bool} {document : Json} {data : Data}

theorem documentOf_seq (items : List Data) :
    documentOf drops (.seq items) = .arr (items.map (documentOf drops)) := by
  cases drops with
  | false => exact congrArg Json.arr (Data.toValues_eq_map items)
  | true =>
    show stripNulls (Data.seq items).toValue = _
    rw [Data.toValue, stripNulls, stripNullItems_eq_map]
    rfl

theorem documentOf_record (fields : List (Text × Data)) :
    documentOf drops (.record fields) =
      .obj ((members drops fields).map fun field => (field.1, documentOf drops field.2)) := by
  cases drops with
  | false =>
    have all : members false fields = fields := List.filter_true fields
    rw [all]
    exact congrArg Json.obj (Data.toEntries_eq_map fields)
  | true => exact stripNulls_record fields

theorem holds_scalar {value : Json} (own : documentOf drops data = value) (plain : value.Distinct)
    (only : document.same value = true → document = value) : Holds drops document data ↔ document = value := by
  rw [Holds, own]
  constructor
  · exact fun held => only held.2
  · rintro rfl
    exact ⟨plain, Json.same_refl plain⟩

theorem holds_null : Holds drops document .null ↔ document = .null := by
  refine holds_scalar (by cases drops <;> rfl) trivial fun same => ?_
  cases document <;> first | rfl | cases same

theorem holds_bool {b : Bool} : Holds drops document (.bool b) ↔ document = .bool b := by
  refine holds_scalar (by cases drops <;> rfl) trivial fun same => ?_
  cases document with
  | bool c => simpa [Json.same] using same
  | _ => cases same

theorem holds_num {n : JsonNumber} : Holds drops document (.num n) ↔ document = .num n := by
  refine holds_scalar (by cases drops <;> rfl) trivial fun same => ?_
  cases document with
  | num m => simpa [Json.same] using same
  | _ => cases same

theorem holds_str {s : Text} : Holds drops document (.str s) ↔ document = .str s := by
  refine holds_scalar (by cases drops <;> rfl) trivial fun same => ?_
  cases document with
  | str t => simpa [Json.same] using same
  | _ => cases same

theorem isNull_of_holds_null (held : Holds drops .null data) : data.isNull = true := by
  cases data <;> cases drops <;>
    first | rfl | exact absurd held.2 (by simp [documentOf, Data.toValue, stripNulls, Json.same])

theorem holds_seq {items : List Data} :
    Holds drops document (.seq items) ↔ ∃ held, document = .arr held ∧ List.Forall₂ (Holds drops) held items := by
  have each : ∀ held : List Json, (Json.DistinctItems held ∧
      Json.sameItems held (items.map (documentOf drops)) = true) ↔ List.Forall₂ (Holds drops) held items := by
    intro held
    induction held generalizing items with
    | nil => cases items <;> simp [Json.DistinctItems, Json.sameItems]
    | cons first rest ih =>
      cases items with
      | nil => simp [Json.sameItems]
      | cons item items =>
        rw [List.forall₂_cons, ← ih, List.map_cons, Json.sameItems, Json.DistinctItems, Holds, Bool.and_eq_true]
        constructor
        · rintro ⟨⟨distinct, distinctRest⟩, same, sameRest⟩
          exact ⟨⟨distinct, same⟩, distinctRest, sameRest⟩
        · rintro ⟨⟨distinct, same⟩, distinctRest, sameRest⟩
          exact ⟨⟨distinct, distinctRest⟩, same, sameRest⟩
  rw [Holds, documentOf_seq]
  constructor
  · rintro ⟨distinct, same⟩
    cases document with
    | arr held => exact ⟨held, rfl, (each held).mp ⟨distinct, by simpa [Json.same] using same⟩⟩
    | _ => cases same
  · rintro ⟨held, rfl, all⟩
    obtain ⟨distinct, same⟩ := (each held).mpr all
    exact ⟨distinct, by simpa [Json.same] using same⟩

/-! ### Records -/

theorem holds_record {fields : List (Text × Data)} :
    Holds drops document (.record fields) ↔ ∃ entries, document = .obj entries ∧ (entries.map Prod.fst).Nodup ∧
      entries.length = (members drops fields).length ∧
      ∀ entry ∈ entries, ∃ data, (members drops fields).lookup entry.1 = some data ∧ Holds drops entry.2 data := by
  rw [Holds, documentOf_record]
  constructor
  · rintro ⟨distinct, same⟩
    cases document with
    | obj entries =>
      simp only [Json.same, Bool.and_eq_true, beq_iff_eq, List.length_map] at same
      refine ⟨entries, rfl, distinct.1, same.1, fun entry member => ?_⟩
      obtain ⟨other, found, step⟩ := Json.sameEntries_iff.mp same.2 entry member
      rw [Assoc.lookup_map, Option.map_eq_some_iff] at found
      obtain ⟨data, lookup, rfl⟩ := found
      exact ⟨data, lookup, Json.distinct_of_entry distinct.2 member, step⟩
    | _ => cases same
  · rintro ⟨entries, rfl, nodup, length, each⟩
    refine ⟨⟨nodup, Json.distinctEntries_of_each fun entry member => ?_⟩, ?_⟩
    · obtain ⟨data, -, distinct, -⟩ := each entry member
      exact distinct
    · simp only [Json.same, Bool.and_eq_true, beq_iff_eq, List.length_map]
      refine ⟨length, Json.sameEntries_iff.mpr fun entry member => ?_⟩
      obtain ⟨data, found, -, same⟩ := each entry member
      exact ⟨_, by rw [Assoc.lookup_map, found]; rfl, same⟩

theorem holds_map {entries : List (Text × Data)} :
    Holds drops document (.map entries) ↔ Holds drops document (.record entries) := by
  cases drops <;> exact Iff.rfl

theorem lookup_members {fields : List (Text × Data)} (nodup : (fields.map Prod.fst).Nodup) {key : Text}
    (found : fields.lookup key = some data) (full : data.isNull = false) :
    (members drops fields).lookup key = some data := by
  apply Assoc.lookup_of_mem (nodup.sublist (List.filter_sublist.map _))
  exact List.mem_filter.mpr ⟨Assoc.mem_of_lookup found, by simp [full]⟩

end Holds

section Lookup
variable {drops : Bool} {entries : List (Text × Json)} {fields : List (Text × Data)} {key : Text} {data : Data}

theorem keys_perm_members (held : Holds drops (.obj entries) (.record fields)) :
    (entries.map Prod.fst).Perm ((members drops fields).map Prod.fst) := by
  obtain ⟨_, same, distinct, length, each⟩ := holds_record.mp held
  obtain rfl := Json.obj.inj same
  apply Assoc.keys_perm distinct length
  intro entry member
  obtain ⟨data, found, -⟩ := each entry member
  exact ⟨data, found⟩

theorem lookup_held (nodup : (fields.map Prod.fst).Nodup) (held : Holds drops (.obj entries) (.record fields))
    (found : fields.lookup key = some data) (full : data.isNull = false) :
    ∃ value, entries.lookup key = some value ∧ Holds drops value data := by
  obtain ⟨_, same, distinct, -, each⟩ := holds_record.mp held
  obtain rfl := Json.obj.inj same
  have inside : (members drops fields).lookup key = some data := lookup_members nodup found full
  have member : key ∈ entries.map Prod.fst := by
    rw [(keys_perm_members held).mem_iff]
    exact List.mem_map.mpr ⟨_, Assoc.mem_of_lookup inside, rfl⟩
  obtain ⟨⟨_, value⟩, there, rfl⟩ := List.mem_map.mp member
  obtain ⟨data', found', holds⟩ := each _ there
  obtain rfl := Option.some.inj (inside.symm.trans found')
  exact ⟨value, Assoc.lookup_of_mem distinct there, holds⟩

theorem lookup_unheld (held : Holds drops (.obj entries) (.record fields)) (absent : fields.lookup key = none) :
    entries.lookup key = none := by
  obtain ⟨_, same, -, -, each⟩ := holds_record.mp held
  obtain rfl := Json.obj.inj same
  rw [Assoc.lookup_eq_none] at absent ⊢
  intro value member
  obtain ⟨data, found, -⟩ := each _ member
  exact absent data (List.mem_filter.mp (Assoc.mem_of_lookup found)).1

theorem holds_filter (nodup : (fields.map Prod.fst).Nodup) (held : Holds drops (.obj entries) (.record fields))
    (p : Text → Bool) :
    Holds drops (.obj (entries.filter fun entry => p entry.1)) (.record (fields.filter fun field => p field.1)) := by
  obtain ⟨_, same, distinct, -, each⟩ := holds_record.mp held
  obtain rfl := Json.obj.inj same
  have comm : members drops (fields.filter fun field => p field.1) =
      (members drops fields).filter fun field => p field.1 := List.filter_comm ..
  refine holds_record.mpr ⟨_, rfl, distinct.sublist (List.filter_sublist.map _), ?_, fun entry member => ?_⟩
  · have keys := ((keys_perm_members held).filter p).length_eq
    rw [List.filter_map, List.filter_map, List.length_map, List.length_map] at keys
    rw [comm]
    exact keys
  · obtain ⟨inside, picked⟩ := List.mem_filter.mp member
    obtain ⟨data, found, holds⟩ := each entry inside
    refine ⟨data, ?_, holds⟩
    rw [comm]
    apply Assoc.lookup_of_mem (nodup.sublist ((List.filter_sublist.trans List.filter_sublist).map _))
    exact List.mem_filter.mpr ⟨Assoc.mem_of_lookup found, picked⟩

end Lookup

theorem shows_null {document : Json} : Shows document .null ↔ document = .null :=
  @holds_null true _

theorem isNull_of_shows_null {data : Data} (shown : Shows .null data) : data.isNull = true :=
  @isNull_of_holds_null true _ shown

theorem shows_seq {document : Json} {items : List Data} :
    Shows document (.seq items) ↔ ∃ shown, document = .arr shown ∧ List.Forall₂ Shows shown items :=
  @holds_seq true _ _

theorem shows_record {document : Json} {fields : List (Text × Data)} :
    Shows document (.record fields) ↔ ∃ entries, document = .obj entries ∧ (entries.map Prod.fst).Nodup ∧
      entries.length = (kept fields).length ∧
      ∀ entry ∈ entries, ∃ data, (kept fields).lookup entry.1 = some data ∧ Shows entry.2 data :=
  @holds_record true _ _

/-! ### Saved alike -/

theorem SameDocuments.refl (data : Data) : SameDocuments data data := fun _ => Iff.rfl

theorem SameDocuments.symm {a b : Data} (ab : SameDocuments a b) : SameDocuments b a :=
  fun document => (ab document).symm

theorem SameDocuments.trans {a b c : Data} (ab : SameDocuments a b) (bc : SameDocuments b c) : SameDocuments a c :=
  fun document => (ab document).trans (bc document)

theorem SameDocuments.of_shown {document : Json} {a b : Data} (showsA : Shows document a) (showsB : Shows document b) :
    SameDocuments a b := by
  have carry : ∀ {a b : Data}, Shows document a → Shows document b → ∀ other, Shows other a → Shows other b := by
    intro a b showsA showsB other shown
    have distinct := Json.distinct_of_same shown.1 shown.2
    have back := Json.same_symm showsA.1 distinct showsA.2
    exact ⟨shown.1, Json.same_trans (Json.same_trans shown.2 back) showsB.2⟩
  exact fun other => ⟨carry showsA showsB other, carry showsB showsA other⟩

theorem SameDocuments.isNull_eq {a b : Data} (ab : SameDocuments a b) : a.isNull = b.isNull := by
  have only : ∀ {a b : Data}, SameDocuments a b → a.isNull = true → b.isNull = true := by
    intro a b ab null
    cases a <;> cases null
    exact isNull_of_shows_null ((ab .null).mp (shows_null.mpr rfl))
  exact Bool.eq_iff_iff.mpr ⟨only ab, only ab.symm⟩

theorem SameDocuments.seq {as bs : List Data} (all : List.Forall₂ SameDocuments as bs) :
    SameDocuments (.seq as) (.seq bs) := by
  have carry : ∀ {as bs : List Data}, List.Forall₂ SameDocuments as bs → ∀ {shown : List Json},
      List.Forall₂ Shows shown as → List.Forall₂ Shows shown bs := by
    intro as bs all
    induction all with
    | nil => exact fun shows => shows
    | cons head _ ih =>
      intro shown shows
      cases shows with
      | cons first rest => exact .cons ((head _).mp first) (ih rest)
  intro document
  rw [shows_seq, shows_seq]
  constructor
  · rintro ⟨shown, rfl, shows⟩
    exact ⟨shown, rfl, carry all shows⟩
  · rintro ⟨shown, rfl, shows⟩
    exact ⟨shown, rfl, carry (all.flip.imp fun _ _ same => SameDocuments.symm same) shows⟩

def SameField (a b : Text × Data) : Prop := a.1 = b.1 ∧ SameDocuments a.2 b.2

theorem kept_same {as bs : List (Text × Data)} (all : List.Forall₂ SameField as bs) :
    List.Forall₂ SameField (kept as) (kept bs) := by
  induction all with
  | nil => exact .nil
  | @cons a b as bs head _ ih =>
    unfold kept at ih ⊢
    rw [List.filter_cons, List.filter_cons, head.2.isNull_eq]
    split
    · exact .cons head ih
    · exact ih

theorem lookup_same {as bs : List (Text × Data)} (all : List.Forall₂ SameField as bs) {key : Text} {data : Data}
    (found : as.lookup key = some data) : ∃ data', bs.lookup key = some data' ∧ SameDocuments data data' := by
  induction all with
  | nil => cases found
  | @cons a b as bs head _ ih =>
    obtain ⟨name, a⟩ := a
    obtain ⟨_, b⟩ := b
    obtain ⟨rfl, same⟩ := head
    rw [List.lookup_cons] at found ⊢
    cases here : key == name with
    | true =>
      rw [here] at found
      obtain rfl := Option.some.inj found
      exact ⟨b, rfl, same⟩
    | false =>
      rw [here] at found
      exact ih found

theorem SameDocuments.record {as bs : List (Text × Data)} (all : List.Forall₂ SameField as bs) :
    SameDocuments (.record as) (.record bs) := by
  have carry : ∀ {as bs : List (Text × Data)}, List.Forall₂ SameField as bs → ∀ {document : Json},
      Shows document (.record as) → Shows document (.record bs) := by
    intro as bs all document shown
    obtain ⟨entries, rfl, nodup, length, each⟩ := shows_record.mp shown
    refine shows_record.mpr ⟨entries, rfl, nodup, length.trans (kept_same all).length_eq, fun entry member => ?_⟩
    obtain ⟨data, found, shows⟩ := each entry member
    obtain ⟨data', found', same⟩ := lookup_same (kept_same all) found
    exact ⟨data', found', (same _).mp shows⟩
  exact fun document => ⟨carry all, carry (all.flip.imp fun _ _ same => ⟨same.1.symm, same.2.symm⟩)⟩

theorem sameDocuments_of_shown {data own : Data} (shown : Shows (stripNulls own.toValue) data) :
    SameDocuments own data := .of_shown ⟨shown.1, Json.same_refl shown.1⟩ shown

end MqBridge.Config
