import MqBridgeApp.Lib.JsonText
import MqBridgeApp.Lib.JsonPath
import MqBridgeApp.Lib.JsonAgree

/-!
# Places in the text of a JSON value

Every part of a value has a place in the text of the value: what comes before it and what comes after it.
-/

namespace MqBridge.Json

def itemsBefore (front : List Json) : Text := front.flatMap fun item => render item ++ [',']

def entryBefore (entry : Text × Json) : Text := renderString entry.1 ++ ':' :: (render entry.2 ++ [','])

/-- `Inside value path before part after`: the part at the path of the value stands between two texts. -/
inductive Inside : Json → List Step → Text → Json → Text → Prop
  | here (value : Json) : Inside value [] [] value []
  | item {front back : List Json} {item part : Json} {path : List Step} {before after : Text}
      (inside : Inside item path before part after) :
      Inside (.arr (front ++ item :: back)) (.index front.length :: path) ('[' :: (itemsBefore front ++ before)) part
        (after ++ renderItems false back)
  | entry {front back : List (Text × Json)} {name : Text} {value part : Json} {path : List Step} {before after : Text}
      (inside : Inside value path before part after) :
      Inside (.obj (front ++ (name, value) :: back)) (.key name :: path)
        ('{' :: (front.flatMap entryBefore ++ (renderString name ++ ':' :: before))) part (after ++ renderEntries false back)

theorem renderItems_append (front : List Json) (item : Json) (back : List Json) :
    renderItems true (front ++ item :: back) = itemsBefore front ++ (render item ++ renderItems false back) := by
  have later : ∀ front : List Json, renderItems false (front ++ item :: back) =
      ',' :: (itemsBefore front ++ (render item ++ renderItems false back)) := by
    intro front
    induction front with
    | nil => rfl
    | cons first rest ih =>
      rw [List.cons_append, renderItems, ih]
      simp [itemsBefore]
  cases front with
  | nil => rfl
  | cons first rest =>
    rw [List.cons_append, renderItems, later]
    simp [itemsBefore]

theorem renderEntries_append (front : List (Text × Json)) (name : Text) (value : Json) (back : List (Text × Json)) :
    renderEntries true (front ++ (name, value) :: back) =
      front.flatMap entryBefore ++ (renderString name ++ ':' :: (render value ++ renderEntries false back)) := by
  have later : ∀ front : List (Text × Json), renderEntries false (front ++ (name, value) :: back) =
      ',' :: (front.flatMap entryBefore ++ (renderString name ++ ':' :: (render value ++ renderEntries false back))) := by
    intro front
    induction front with
    | nil => simp [renderEntries]
    | cons first rest ih =>
      rw [List.cons_append, renderEntries, ih]
      simp [entryBefore]
  cases front with
  | nil => simp [renderEntries]
  | cons first rest =>
    rw [List.cons_append, renderEntries, later]
    simp [entryBefore]

theorem Inside.text {value part : Json} {path : List Step} {before after : Text}
    (inside : Inside value path before part after) : render value = before ++ (render part ++ after) := by
  induction inside with
  | here value => simp
  | item _ ih =>
    rw [render, renderItems_append, ih]
    simp
  | entry _ ih =>
    rw [render, renderEntries_append, ih]
    simp

theorem Inside.entry_of_mem {value : Json} {entries : List (Text × Json)} {path : List Step} {before after : Text}
    (inside : Inside value path before (.obj entries) after) {entry : Text × Json} (member : entry ∈ entries) :
    ∃ before' after', Inside value (path ++ [.key entry.1]) before' entry.2 after' := by
  generalize part : Json.obj entries = object at inside
  induction inside with
  | here value =>
    subst part
    obtain ⟨front, back, rfl⟩ := List.append_of_mem member
    exact ⟨_, _, .entry (.here _)⟩
  | item _ ih =>
    obtain ⟨_, _, deeper⟩ := ih part
    exact ⟨_, _, .item deeper⟩
  | entry _ ih =>
    obtain ⟨_, _, deeper⟩ := ih part
    exact ⟨_, _, .entry deeper⟩

theorem distinct_of_item {items : List Json} (distinct : DistinctItems items) {item : Json} (member : item ∈ items) :
    item.Distinct := by
  induction items with
  | nil => cases member
  | cons first rest ih =>
    rcases List.mem_cons.mp member with rfl | later
    · exact distinct.1
    · exact ih distinct.2 later

theorem Inside.follow {value part : Json} {path : List Step} {before after : Text}
    (inside : Inside value path before part after) (distinct : value.Distinct) : value.follow path = some part := by
  induction inside with
  | here value => rfl
  | @item front back item part path before after _ ih =>
    have inner : item.Distinct := distinct_of_item distinct (List.mem_append_right front List.mem_cons_self)
    rw [follow_index_arr, List.getElem?_append_right (Nat.le_refl _), Nat.sub_self, List.getElem?_cons_zero,
      Option.bind_some, ih inner]
  | @entry front back name value part path before after _ ih =>
    have member : (name, value) ∈ front ++ (name, value) :: back := List.mem_append_right _ List.mem_cons_self
    rw [follow_key_obj, Assoc.lookup_of_mem distinct.1 member, Option.bind_some, ih (distinct_of_entry distinct.2 member)]

theorem length_lt_renderItems (first : Bool) (items : List Json) : items.length < (renderItems first items).length := by
  induction items generalizing first with
  | nil => exact Nat.one_pos
  | cons item rest ih =>
    have later := ih false
    obtain ⟨c, text, shown, -⟩ := render_head item
    rw [renderItems, shown]
    simp only [List.length_append, List.length_cons]
    omega

theorem Inside.items_lt {value : Json} {path : List Step} {before after : Text} {items : List Json}
    (inside : Inside value path before (.arr items) after) : items.length < (render value).length := by
  have later := length_lt_renderItems true items
  rw [inside.text, render]
  simp only [List.length_append, List.length_cons]
  omega

/-- Every part has a place. -/
theorem inside_of_follow {path : List Step} : ∀ {value part : Json}, value.follow path = some part →
    ∃ before after, Inside value path before part after := by
  induction path with
  | nil =>
    intro value part found
    obtain rfl := Option.some.inj found
    exact ⟨_, _, .here value⟩
  | cons step rest ih =>
    intro value part found
    cases step with
    | key name =>
      cases value with
      | obj entries =>
        rw [follow_key_obj] at found
        obtain ⟨inner, there, deeper⟩ := Option.bind_eq_some_iff.mp found
        obtain ⟨_, _, inside⟩ := ih deeper
        obtain ⟨front, back, rfl⟩ := List.append_of_mem (Assoc.mem_of_lookup there)
        exact ⟨_, _, .entry inside⟩
      | _ => cases found
    | index i =>
      cases value with
      | arr items =>
        rw [follow_index_arr] at found
        obtain ⟨inner, there, deeper⟩ := Option.bind_eq_some_iff.mp found
        obtain ⟨_, _, inside⟩ := ih deeper
        obtain ⟨within, rfl⟩ := List.getElem?_eq_some_iff.mp there
        have split : items = items.take i ++ items[i] :: items.drop (i + 1) := by simp
        have length : (items.take i).length = i := by
          rw [List.length_take]
          omega
        have placed := @Inside.item (items.take i) (items.drop (i + 1)) _ _ _ _ _ inside
        rw [← split, length] at placed
        exact ⟨_, _, placed⟩
      | _ => cases found

end MqBridge.Json
