/-
  What the name of a match says about who takes part.

  * `idBytes_eq_iff_lines`: what is hashed tells apart the lines of the ids, sorted by id,
    and nothing else;
  * `idBytes_eq_iff_perm`: so it tells apart who takes part, and how often, if each id is
    a line of its own; the order of the ids never matters (`matchId_perm`).
-/
import Matchbook.Proofs.Sorting
import Matchbook.Record.Basic

namespace Matchbook

/-! ## Sorted ids -/

theorem sortedIds_perm {ids ids' : List String} (h : ids.Perm ids') :
    sortedIds ids = sortedIds ids' := sortTexts_perm h

/-- A match has the same name, in whatever order its items are given. -/
theorem matchId_perm {ids ids' : List String} (h : ids.Perm ids') : matchId ids = matchId ids' := by
  rw [matchId, idBytes, sortedIds_perm h]
  rfl

/-! ## Lines -/

/-- The lines of an id, cut at its line feeds. -/
def idLines (id : String) : List (List Char) := id.toList.splitOn '\n'

/-- The id has no line feed in it. -/
def IsLine (id : String) : Prop := '\n' ∉ id.toList

instance (id : String) : Decidable (IsLine id) := inferInstanceAs (Decidable (_ ∉ _))

theorem IsLine.idLines_eq {id : String} (h : IsLine id) : idLines id = [id.toList] :=
  List.splitOn_eq_singleton h

/-- The characters of some ids, each followed by a line feed. -/
def idText (ids : List String) : List Char := ids.flatMap fun id => id.toList ++ ['\n']

/-- Cut at the line feeds, the text gives back the lines of its ids, and nothing after the
    last one. -/
theorem splitOn_idText (ids : List String) :
    (idText ids).splitOn '\n' = ids.flatMap idLines ++ [[]] := by
  induction ids with
  | nil => rfl
  | cons id ids ih =>
    calc (idText (id :: ids)).splitOn '\n'
      _ = (id.toList ++ '\n' :: idText ids).splitOn '\n' := by simp [idText]
      _ = idLines id ++ (idText ids).splitOn '\n' := List.splitOn_append_cons_self _ _
      _ = (id :: ids).flatMap idLines ++ [[]] := by rw [ih, List.flatMap_cons, List.append_assoc]

theorem idText_eq_iff {ids ids' : List String} :
    idText ids = idText ids' ↔ ids.flatMap idLines = ids'.flatMap idLines := by
  have hjoin : ∀ s : List Char, ['\n'].intercalate (s.splitOn '\n') = s := fun _ =>
    List.intercalate_splitOn _
  have hcut : ∀ {s t : List Char}, s = t ↔ s.splitOn '\n' = t.splitOn '\n' := fun {s t} =>
    ⟨congrArg _, fun h => by rw [← hjoin s, h, hjoin]⟩
  rw [hcut, splitOn_idText, splitOn_idText, List.append_left_inj]

/-! ## Bytes -/

/-- Bytes in UTF-8 tell texts apart. -/
theorem flatMap_utf8EncodeChar_inj {s t : List Char} :
    s.flatMap String.utf8EncodeChar = t.flatMap String.utf8EncodeChar ↔ s = t := by
  rw [← List.toByteArray_inj]
  show s.utf8Encode = t.utf8Encode ↔ _
  rw [← String.toByteArray_ofList, ← String.toByteArray_ofList, String.toByteArray_inj,
    String.ofList_inj]

theorem idBytes_eq (ids : List String) :
    idBytes ids = (idText (sortedIds ids)).flatMap String.utf8EncodeChar := by
  have hfeed : ∀ id : String, id.toList.flatMap String.utf8EncodeChar ++ [10] =
      (id.toList ++ ['\n']).flatMap String.utf8EncodeChar := fun id => by
    rw [List.flatMap_append]
    rfl
  simp only [idBytes, idText, hfeed, List.flatMap_assoc]

/-- **What is hashed** are the lines of the ids, sorted by id: nothing tells the end of an id
    from a line feed in it. -/
theorem idBytes_eq_iff_lines {ids ids' : List String} : idBytes ids = idBytes ids' ↔
    (sortedIds ids).flatMap idLines = (sortedIds ids').flatMap idLines := by
  rw [idBytes_eq, idBytes_eq, flatMap_utf8EncodeChar_inj, idText_eq_iff]

/-- Ids of one line each are told apart, however often each of them comes. -/
theorem idBytes_eq_iff_perm {ids ids' : List String} (h : ∀ id ∈ ids ++ ids', IsLine id) :
    idBytes ids = idBytes ids' ↔ ids'.Perm ids := by
  have hperm : ∀ ids : List String, (sortedIds ids).Perm ids := fun ids => List.mergeSort_perm _ _
  have hlines : ∀ l : List String, l.Perm ids ∨ l.Perm ids' →
      l.flatMap idLines = l.map String.toList := by
    intro l hl
    have hline : ∀ id ∈ l, idLines id = [id.toList] := fun id hid =>
      IsLine.idLines_eq (h id (List.mem_append.2 (hl.imp (·.mem_iff.1 hid) (·.mem_iff.1 hid))))
    rw [List.flatMap_congr hline, ← List.map_eq_flatMap]
  rw [idBytes_eq_iff_lines, hlines _ (.inl (hperm ids)), hlines _ (.inr (hperm ids'))]
  constructor
  · intro heq
    have hsorted : sortedIds ids = sortedIds ids' :=
      List.map_injective_iff.2 (fun _ _ => String.toList_inj.1) heq
    exact (hperm ids').symm.trans (hsorted ▸ hperm ids)
  · exact fun hids => by rw [sortedIds_perm hids]

end Matchbook
