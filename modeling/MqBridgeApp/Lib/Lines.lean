import MqBridgeApp.Lib.Text

/-!
# Lines

A text as the sequence of its lines, each ended by a line feed. A carriage return before the line feed
belongs to the end of the line.
-/

namespace MqBridge.Text

/-- The lines of a text up to their line feeds, and what comes after the last one. -/
def splitLines : Text → List Text × Text
  | [] => ([], [])
  | c :: rest =>
    if c = '\n' then ([] :: (splitLines rest).1, (splitLines rest).2)
    else
      match (splitLines rest).1 with
      | [] => ([], c :: (splitLines rest).2)
      | line :: later => ((c :: line) :: later, (splitLines rest).2)

def stripCr (line : Text) : Text := if line.getLast? = some '\r' then line.dropLast else line

/-- The lines of a text without their ends. A last line may come without one. -/
def lines (t : Text) : List Text :=
  (splitLines t).1.map stripCr ++ if (splitLines t).2 = [] then [] else [(splitLines t).2]

def unlines (ls : List Text) : Text := ls.flatMap fun line => line ++ ['\n']

def joinLines (ls : List Text) : Text := List.intercalate ['\n'] ls

def endLine (t : Text) : Text := if t.getLast? = some '\n' then t else t ++ ['\n']

/-- The lines without a blank one at the end. -/
def dropBlankEnd (ls : List Text) : List Text := if ls.getLast? = some [] then ls.dropLast else ls

theorem splitLines_append {line : Text} (plain : '\n' ∉ line) (t : Text) :
    splitLines (line ++ '\n' :: t) = (line :: (splitLines t).1, (splitLines t).2) := by
  induction line with
  | nil => simp [splitLines]
  | cons c rest ih =>
    simp only [List.mem_cons, not_or] at plain
    rw [List.cons_append, splitLines, if_neg (Ne.symm plain.1), ih plain.2]

theorem splitLines_unlines {ls : List Text} (plain : ∀ line ∈ ls, '\n' ∉ line) : splitLines (unlines ls) = (ls, []) := by
  induction ls with
  | nil => rfl
  | cons line rest ih =>
    obtain ⟨here, later⟩ := List.forall_mem_cons.mp plain
    rw [unlines, List.flatMap_cons, List.append_assoc, List.singleton_append, splitLines_append here]
    rw [unlines] at ih
    rw [ih later]

theorem lines_unlines {ls : List Text} (plain : ∀ line ∈ ls, '\n' ∉ line) : lines (unlines ls) = ls.map stripCr := by
  simp [lines, splitLines_unlines plain]

theorem unlines_injective {ls ls' : List Text} (plain : ∀ line ∈ ls, '\n' ∉ line) (plain' : ∀ line ∈ ls', '\n' ∉ line)
    (same : unlines ls = unlines ls') : ls = ls' := by
  have splits := congrArg (fun t => (splitLines t).1) same
  simpa only [splitLines_unlines plain, splitLines_unlines plain'] using splits

theorem splitLines_plain (t : Text) : (∀ line ∈ (splitLines t).1, '\n' ∉ line) ∧ '\n' ∉ (splitLines t).2 := by
  induction t with
  | nil => simp [splitLines]
  | cons c rest ih =>
    obtain ⟨before, last⟩ := ih
    rw [splitLines]
    split
    · exact ⟨List.forall_mem_cons.mpr ⟨List.not_mem_nil, before⟩, last⟩
    · next other =>
      have head : ∀ line : Text, '\n' ∉ line → '\n' ∉ c :: line := fun line absent member => by
        rcases List.mem_cons.mp member with same | inside
        · exact other same.symm
        · exact absent inside
      split
      · exact ⟨nofun, head _ last⟩
      · next line later split =>
        rw [split] at before
        obtain ⟨here, later⟩ := List.forall_mem_cons.mp before
        exact ⟨List.forall_mem_cons.mpr ⟨head _ here, later⟩, last⟩

theorem mem_of_mem_stripCr {line : Text} {c : Char} (member : c ∈ stripCr line) : c ∈ line := by
  unfold stripCr at member
  split at member
  · exact List.dropLast_subset _ member
  · exact member

theorem stripCr_of_plain {line : Text} (plain : line.getLast? ≠ some '\r') : stripCr line = line := if_neg plain

theorem stripCr_eq_self {line : Text} : stripCr line = line ↔ line.getLast? ≠ some '\r' := by
  constructor
  · intro same ends
    rw [stripCr, if_pos ends] at same
    have lengths := congrArg List.length same
    cases line with
    | nil => cases ends
    | cons c rest => simp at lengths
  · exact stripCr_of_plain

theorem not_mem_lines (t : Text) : ∀ line ∈ lines t, '\n' ∉ line := by
  obtain ⟨before, last⟩ := splitLines_plain t
  intro line member feed
  rcases List.mem_append.mp member with inside | atEnd
  · obtain ⟨raw, there, rfl⟩ := List.mem_map.mp inside
    exact before raw there (mem_of_mem_stripCr feed)
  · split at atEnd
    · cases atEnd
    · obtain rfl := List.mem_singleton.mp atEnd
      exact last feed

theorem unlines_append (ls ls' : List Text) : unlines (ls ++ ls') = unlines ls ++ unlines ls' := List.flatMap_append

theorem joinLines_concat (ls : List Text) (line : Text) : joinLines (ls ++ [line]) = unlines ls ++ line := by
  induction ls with
  | nil => simp [joinLines, unlines]
  | cons first rest ih =>
    have nonempty : rest ++ [line] ≠ [] := by simp
    rw [List.cons_append, joinLines, List.intercalate_cons_of_ne_nil nonempty, ← joinLines, ih]
    simp [unlines]

/-- Joined lines with an end are the lines with their ends, except that one blank line at the end is lost. -/
theorem endLine_joinLines {ls : List Text} (plain : ∀ line ∈ ls, '\n' ∉ line) (some_ : ls ≠ []) (full : ls ≠ [[]]) :
    endLine (joinLines ls) = unlines (dropBlankEnd ls) := by
  rcases List.eq_nil_or_concat ls with rfl | ⟨before, last, rfl⟩
  · exact absurd rfl some_
  · rw [List.concat_eq_append] at *
    rw [joinLines_concat, dropBlankEnd, List.getLast?_concat, List.dropLast_concat]
    cases last with
    | nil =>
      rcases List.eq_nil_or_concat before with rfl | ⟨init, line, rfl⟩
      · exact absurd rfl full
      · rw [if_pos rfl, List.append_nil, endLine, if_pos]
        simp [unlines]
    | cons c rest =>
      have feed : '\n' ∉ c :: rest := plain _ (by simp)
      have ends : (unlines before ++ c :: rest).getLast? ≠ some '\n' := by
        rw [List.getLast?_append_of_ne_nil _ (List.cons_ne_nil c rest)]
        exact fun found => feed (List.mem_of_getLast? found)
      rw [if_neg (by simp), endLine, if_neg ends, unlines_append]
      simp [unlines]

theorem mem_dropBlankEnd {ls : List Text} {line : Text} (full : line ≠ []) : line ∈ dropBlankEnd ls ↔ line ∈ ls := by
  unfold dropBlankEnd
  split
  · next blank =>
    obtain ⟨before, rfl⟩ := List.getLast?_eq_some_iff.mp blank
    simp [full]
  · exact Iff.rfl

theorem mem_of_mem_dropBlankEnd {ls : List Text} {line : Text} (member : line ∈ dropBlankEnd ls) : line ∈ ls := by
  unfold dropBlankEnd at member
  split at member
  · exact List.dropLast_subset _ member
  · exact member

theorem filter_dropBlankEnd {p : Text → Bool} (blank : p [] = false) (ls : List Text) :
    (dropBlankEnd ls).filter p = ls.filter p := by
  unfold dropBlankEnd
  split
  · next ends =>
    obtain ⟨before, rfl⟩ := List.getLast?_eq_some_iff.mp ends
    simp [blank]
  · rfl

theorem filterMap_dropBlankEnd {α : Type*} {f : Text → Option α} (blank : f [] = none) (ls : List Text) :
    (dropBlankEnd ls).filterMap f = ls.filterMap f := by
  unfold dropBlankEnd
  split
  · next ends =>
    obtain ⟨before, rfl⟩ := List.getLast?_eq_some_iff.mp ends
    simp [blank]
  · rfl

theorem getLast_dropBlankEnd {ls : List Text} : (dropBlankEnd ls).getLast? = some [] ↔ [[], []] <:+ ls := by
  unfold dropBlankEnd
  split
  · next ends =>
    obtain ⟨before, rfl⟩ := List.getLast?_eq_some_iff.mp ends
    rw [List.dropLast_concat, List.getLast?_eq_some_iff]
    constructor
    · rintro ⟨init, rfl⟩
      exact ⟨init, by simp⟩
    · rintro ⟨init, same⟩
      exact ⟨init, (List.append_cancel_right (same.symm.trans (by simp)))⟩
  · next full =>
    refine iff_of_false full ?_
    rintro ⟨init, rfl⟩
    exact full (by simp)

/-- Lines come back as they were when none has a second end and the last one is not blank. -/
theorem dropBlankEnd_stripCr {ls : List Text} :
    dropBlankEnd (ls.map stripCr) = ls ↔ (∀ line ∈ ls, line.getLast? ≠ some '\r') ∧ ls.getLast? ≠ some [] := by
  constructor
  · intro same
    have full : (ls.map stripCr).getLast? ≠ some [] := by
      intro blank
      have lengths := congrArg List.length same
      rw [dropBlankEnd, if_pos blank, List.length_dropLast, List.length_map] at lengths
      cases ls with
      | nil => cases blank
      | cons line rest => simp at lengths
    rw [dropBlankEnd, if_neg full] at same
    refine ⟨fun line member => stripCr_eq_self.mp (List.map_inj_left.mp (same.trans (List.map_id ls).symm) line member), ?_⟩
    rwa [same] at full
  · rintro ⟨plain, full⟩
    have same : ls.map stripCr = ls := List.map_congr_left (fun line member => stripCr_of_plain (plain line member)) |>.trans
      (List.map_id ls)
    rw [same, dropBlankEnd, if_neg full]

end MqBridge.Text
