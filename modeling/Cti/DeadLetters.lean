import Cti.FeedRuns
import Cti.Lookup
import Cti.Selection

set_option autoImplicit false

/- The table of dead letters over its whole life: letters are recorded, listed and marked as
replayed. -/
namespace Cti

open Py (Str)
open Selection (Selects)

/-- A row of `dead_letters` with its key and its mark. -/
structure DeadLetter where
  id : Int
  row : DeadLetterRow
  replayedAt : Option Int

/-- A letter as it is recorded, with the key that the database gives it. -/
def DeadLetter.recorded (id : Int) (row : DeadLetterRow) : DeadLetter := ⟨id, row, none⟩

/-- `replayed_at is null`. -/
def DeadLetter.unreplayed (letter : DeadLetter) : Bool := letter.replayedAt.isNone

/-- `DeadLetterRepo.list`. -/
def ListsDeadLetters (table : List DeadLetter) (sourceId : Option Str) (unreplayedOnly : Bool)
    (limit : Nat) (rows : List DeadLetter) : Prop :=
  Selects table (fun letter => whereEq letter.row.sourceId sourceId &&
    (!unreplayedOnly || letter.unreplayed)) (fun letter => letter.row.createdAt) limit rows

/-- `DeadLetterRepo.mark_replayed`. -/
def markReplayed (table : List DeadLetter) (dlqId now : Int) : List DeadLetter :=
  table.map fun letter => if letter.id = dlqId then { letter with replayedAt := some now } else letter

/-- What happens to the table. -/
inductive LetterEvent where
  | record (id : Int) (row : DeadLetterRow)
  | mark (id now : Int)

def LetterEvent.apply (table : List DeadLetter) : LetterEvent → List DeadLetter
  | .record id row => table ++ [.recorded id row]
  | .mark id now => markReplayed table id now

/-- The table that a history leads to. -/
def tableAfter (events : List LetterEvent) (table : List DeadLetter) : List DeadLetter :=
  events.foldl LetterEvent.apply table

section history

/-- The mark of a letter by a later history: the last one counts. -/
def LetterEvent.marked (id : Int) (mark : Option Int) : LetterEvent → Option Int
  | .record _ _ => mark
  | .mark id' now => if id = id' then some now else mark

def lastMark (id : Int) (events : List LetterEvent) (mark : Option Int) : Option Int :=
  events.foldl (LetterEvent.marked id) mark

/-- A history told letter by letter: each letter as it was recorded, with the last mark that
named it afterwards. -/
def lettersOf : List LetterEvent → List DeadLetter
  | [] => []
  | .record id row :: events => ⟨id, row, lastMark id events none⟩ :: lettersOf events
  | .mark _ _ :: events => lettersOf events

/-- A history turns each letter that is already there into one with its last mark, and adds its
own letters behind. -/
theorem tableAfter_eq (events : List LetterEvent) (table : List DeadLetter) :
    tableAfter events table =
      table.map (fun letter =>
        { letter with replayedAt := lastMark letter.id events letter.replayedAt }) ++
      lettersOf events := by
  induction events generalizing table with
  | nil => simp [tableAfter, lastMark, lettersOf]
  | cons event events ih =>
      rw [tableAfter, List.foldl_cons]
      change tableAfter events (event.apply table) = _
      rw [ih]
      cases event with
      | record id row =>
          simp [LetterEvent.apply, DeadLetter.recorded, lettersOf, lastMark, LetterEvent.marked]
      | mark id now =>
          simp only [LetterEvent.apply, markReplayed, lettersOf, List.map_map]
          congr 1
          apply List.map_congr_left
          intro letter _
          simp only [Function.comp_apply, lastMark, List.foldl_cons, LetterEvent.marked]
          by_cases named : letter.id = id
          · rw [if_pos named, if_pos named]
          · rw [if_neg named, if_neg named]

end history

section draining

variable {table : List DeadLetter} {limit : Nat}

/-- Marking letters one after another. -/
def replayAll (table : List DeadLetter) (marks : List (Int × Int)) : List DeadLetter :=
  tableAfter (marks.map fun mark => .mark mark.1 mark.2) table

theorem lastMark_none (id : Int) (marks : List (Int × Int)) (mark : Option Int) :
    (lastMark id (marks.map fun mark => .mark mark.1 mark.2) mark).isNone =
      (mark.isNone && !(marks.map Prod.fst).contains id) := by
  induction marks generalizing mark with
  | nil => simp [lastMark]
  | cons first marks ih =>
      rw [List.map_cons, lastMark, List.foldl_cons]
      change (lastMark id _ (LetterEvent.marked id mark _)).isNone = _
      rw [ih]
      by_cases named : id = first.1
      · simp [LetterEvent.marked, named]
      · have differ : (id == first.1) = false := by simpa using named
        simp [LetterEvent.marked, named, differ]

theorem lettersOf_marks (marks : List (Int × Int)) :
    lettersOf (marks.map fun mark => .mark mark.1 mark.2) = [] := by
  induction marks with
  | nil => rfl
  | cons first marks ih => exact ih

/-- The letters that are still to be replayed. -/
def openCount (table : List DeadLetter) : Nat := table.countP DeadLetter.unreplayed

theorem replayAll_openCount (table : List DeadLetter) (marks : List (Int × Int)) :
    openCount (replayAll table marks) =
      table.countP fun letter => letter.unreplayed && !(marks.map Prod.fst).contains letter.id := by
  rw [replayAll, tableAfter_eq, lettersOf_marks, List.append_nil, openCount, List.countP_map]
  congr 1
  funext letter
  simp only [Function.comp_apply, DeadLetter.unreplayed]
  exact lastMark_none letter.id marks letter.replayedAt

/-- What was recorded stays as it was. -/
theorem replayAll_rows (table : List DeadLetter) (marks : List (Int × Int)) :
    (replayAll table marks).map (fun letter => (letter.id, letter.row)) =
      table.map fun letter => (letter.id, letter.row) := by
  rw [replayAll, tableAfter_eq, lettersOf_marks, List.append_nil, List.map_map]
  rfl

/-- Listing the letters to be replayed, up to a limit, and marking what is listed. -/
def ReplaysListed (limit : Nat) (table table' : List DeadLetter) : Prop :=
  ∃ rows marks, ListsDeadLetters table none true limit rows ∧
    marks.map Prod.fst = rows.map DeadLetter.id ∧ table' = replayAll table marks

/-- As many letters are closed as are listed. -/
theorem ReplaysListed.openCount {table' : List DeadLetter} (replays : ReplaysListed limit table table')
    (distinct : (table.map DeadLetter.id).Nodup) : openCount table' = openCount table - limit := by
  obtain ⟨rows, marks, lists, named, rfl⟩ := replays
  obtain ⟨rest, perm, full, _⟩ := lists.rest
  have cond : (fun letter : DeadLetter => whereEq letter.row.sourceId none &&
      (!true || letter.unreplayed)) = DeadLetter.unreplayed := by
    funext letter
    simp [whereEq]
  rw [cond] at perm
  have ids : ((rows ++ rest).map DeadLetter.id).Nodup :=
    (perm.map DeadLetter.id).nodup_iff.mpr (distinct.sublist (List.filter_sublist.map _))
  rw [List.map_append, List.nodup_append] at ids
  have listed : rows.countP (fun letter => !(rows.map DeadLetter.id).contains letter.id) = 0 := by
    rw [List.countP_eq_zero]
    intro letter member
    simpa using ⟨letter, member, rfl⟩
  have unlisted : rest.countP (fun letter => !(rows.map DeadLetter.id).contains letter.id) =
      rest.length := by
    rw [List.countP_eq_length]
    intro letter member
    have apart : letter.id ∉ rows.map DeadLetter.id := fun inside =>
      ids.2.2 _ inside _ (List.mem_map_of_mem member) rfl
    simpa using apart
  have left : Cti.openCount (replayAll table marks) = rest.length := by
    rw [replayAll_openCount, named, ← unlisted, ← Nat.zero_add (rest.countP _), ← listed,
      ← List.countP_append, perm.countP_eq, List.countP_filter]
    congr 1
    funext letter
    rw [Bool.and_comm]
  have whole : Cti.openCount table = rows.length + rest.length := by
    rw [Cti.openCount, List.countP_eq_length_filter, ← perm.length_eq, List.length_append]
  by_cases more : rest = []
  · have few : rows.length ≤ limit := lists.length.le.trans (Nat.min_le_left _ _)
    rw [left, whole, more, List.length_nil]
    omega
  · have length := full more
    omega

/-- A letter that a run of a source has left. -/
def feedLetter : DeadLetterRow where
  feedRunId := 1
  sourceId := "feed".toList
  payloadSha := emptySha
  errorClass := some .permanentError
  errorMsg := []
  traceback := []
  reason := "permanent".toList
  createdAt := 0

end draining

end Cti
