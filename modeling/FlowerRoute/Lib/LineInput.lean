import Mathlib.Data.List.Basic
import Mathlib.Data.Nat.Init

/-!
# Lines through a buffer

The text of a file in lines, and `fgets`, which delivers a line in pieces of the size of its
buffer. A loop over `fgets` is a fold over the pieces of the lines.
-/

namespace LineInput

/-- The characters that `fgets` stores when there is room for `room` of them, and the text after
them: it stops behind a newline. -/
def readPiece : Nat → List Char → List Char × List Char
  | 0, text => ([], text)
  | _ + 1, [] => ([], [])
  | room + 1, c :: text =>
    if c = '\n' then ([c], text)
    else
      let (piece, rest) := readPiece room text
      (c :: piece, rest)

/-- `fgets` with a buffer of some size: the string in the buffer with its terminator, and the text
that is left; or none at the end of the file. -/
def fgets (size : Nat) (text : List Char) : Option (List Char × List Char) :=
  match text with
  | [] => none
  | text =>
    let (piece, rest) := readPiece (size - 1) text
    some (piece ++ ['\x00'], rest)

/-- The lines of a text, without their newlines. -/
def lines : List Char → List (List Char)
  | [] => []
  | c :: text =>
    if c = '\n' then [] :: lines text
    else
      match lines text with
      | [] => [[c]]
      | line :: later => (c :: line) :: later

/-- Reading leaves less than there was. -/
theorem length_readPiece {room : Nat} {text : List Char} (positive : 0 < room) (more : text ≠ []) :
    (readPiece room text).2.length < text.length := by
  have shrinks : ∀ (room : Nat) (text : List Char), (readPiece room text).2.length ≤ text.length := by
    intro room text
    induction text generalizing room with
    | nil => cases room <;> exact Nat.le_refl _
    | cons c text ih =>
      cases room with
      | zero => exact Nat.le_refl _
      | succ room =>
        rw [readPiece]
        split
        · exact Nat.le_succ _
        · exact Nat.le_succ_of_le (ih room)
  cases text with
  | nil => exact absurd rfl more
  | cons c text =>
    cases room with
    | zero => omega
    | succ room =>
      rw [readPiece]
      split
      · exact Nat.lt_succ_self _
      · exact Nat.lt_succ_of_le (shrinks room text)

/-- What a loop over `fgets` reads, piece by piece. -/
def pieces (room : Nat) (text : List Char) : List (List Char) :=
  if text = [] ∨ room = 0 then []
  else (readPiece room text).1 :: pieces room (readPiece room text).2
termination_by text.length
decreasing_by
  rename_i more
  obtain ⟨more, positive⟩ := not_or.mp more
  exact length_readPiece (Nat.pos_of_ne_zero positive) more

/-- A text in pieces of some width, the last one of what remains. -/
def chunks (width : Nat) (text : List Char) : List (List Char) :=
  if text = [] ∨ width = 0 then []
  else text.take width :: chunks width (text.drop width)
termination_by text.length
decreasing_by
  rename_i more
  have := List.length_pos_of_ne_nil (not_or.mp more).1
  simp only [List.length_drop]
  omega

variable {width room : Nat} {text line rest : List Char}

@[simp] theorem lines_nil : lines [] = [] := rfl

/-- The last line, when no newline ends it. -/
theorem lines_last (more : line ≠ []) (plain : '\n' ∉ line) : lines line = [line] := by
  induction line with
  | nil => exact absurd rfl more
  | cons c line ih =>
    obtain ⟨other, plain⟩ := List.ne_and_not_mem_of_not_mem_cons plain
    rw [lines, if_neg fun same => other same.symm]
    by_cases last : line = []
    · rw [last, lines]
    · rw [ih last plain]

/-- A line and those after it. -/
theorem lines_line (plain : '\n' ∉ line) : lines (line ++ '\n' :: rest) = line :: lines rest := by
  induction line with
  | nil => rfl
  | cons c line ih =>
    obtain ⟨other, plain⟩ := List.ne_and_not_mem_of_not_mem_cons plain
    rw [List.cons_append, lines, if_neg fun same => other same.symm, ih plain]

/-- A text is empty, its last line, or a line before a text. -/
theorem lines_induction {motive : List Char → Prop} (empty : motive [])
    (last : ∀ line, line ≠ [] → '\n' ∉ line → motive line)
    (next : ∀ line rest, '\n' ∉ line → motive rest → motive (line ++ '\n' :: rest))
    (text : List Char) : motive text := by
  induction size : text.length using Nat.strong_induction_on generalizing text with
  | _ n ih =>
    by_cases newline : '\n' ∈ text
    · obtain ⟨line, rest, split, plain⟩ := List.eq_append_cons_of_mem newline
      subst split
      refine next line rest plain (ih rest.length ?_ rest rfl)
      simp only [List.length_append, List.length_cons] at size
      omega
    · by_cases nothing : text = []
      · rw [nothing]
        exact empty
      · exact last text nothing newline

/-- No line has a newline. -/
theorem newline_notMem_lines : ∀ line ∈ lines text, '\n' ∉ line := by
  induction text using lines_induction with
  | empty => exact fun line inside => absurd inside List.not_mem_nil
  | last line more plain =>
    rw [lines_last more plain]
    intro other inside
    rwa [List.mem_singleton.mp inside]
  | next line rest plain ih =>
    rw [lines_line plain]
    intro other inside
    rcases List.mem_cons.mp inside with rfl | inside
    · exact plain
    · exact ih other inside

@[simp] theorem chunks_nil : chunks width [] = [] := by
  rw [chunks, if_pos (.inl rfl)]

/-- The first piece and those after it. -/
theorem chunks_more (wide : 0 < width) (more : text ≠ []) :
    chunks width text = text.take width :: chunks width (text.drop width) := by
  rw [chunks, if_neg (not_or.mpr ⟨more, Nat.ne_of_gt wide⟩)]

/-- A text that is no longer than a piece is one. -/
theorem chunks_short (more : text ≠ []) (short : text.length ≤ width) :
    chunks width text = [text] := by
  have positive := List.length_pos_of_ne_nil more
  rw [chunks_more (by omega) more, List.take_of_length_le short, List.drop_eq_nil_of_le short,
    chunks_nil]

/-- Where there is room for it, the whole line is stored with its newline. -/
theorem readPiece_line (plain : '\n' ∉ line) (short : line.length < room) :
    readPiece room (line ++ '\n' :: rest) = (line ++ ['\n'], rest) := by
  induction line generalizing room with
  | nil =>
    cases room with
    | zero => omega
    | succ room => rfl
  | cons c line ih =>
    obtain ⟨other, plain⟩ := List.ne_and_not_mem_of_not_mem_cons plain
    cases room with
    | zero => exact absurd short (Nat.not_lt_zero _)
    | succ room =>
      rw [List.cons_append, readPiece, if_neg fun same => other same.symm,
        ih plain (Nat.lt_of_succ_lt_succ short)]
      rfl

/-- Where there is no room for all of it, the front of a line is stored. -/
theorem readPiece_front (plain : '\n' ∉ line) (long : room ≤ line.length) :
    readPiece room (line ++ rest) = (line.take room, line.drop room ++ rest) := by
  induction line generalizing room with
  | nil =>
    rw [Nat.le_zero.mp long]
    rfl
  | cons c line ih =>
    obtain ⟨other, plain⟩ := List.ne_and_not_mem_of_not_mem_cons plain
    cases room with
    | zero => rfl
    | succ room =>
      rw [List.cons_append, readPiece, if_neg fun same => other same.symm,
        ih plain (Nat.le_of_succ_le_succ long)]
      rfl

/-- The last line is stored as far as there is room. -/
theorem readPiece_last (plain : '\n' ∉ line) :
    readPiece room line = (line.take room, line.drop room) := by
  induction line generalizing room with
  | nil => cases room <;> rfl
  | cons c line ih =>
    obtain ⟨other, plain⟩ := List.ne_and_not_mem_of_not_mem_cons plain
    cases room with
    | zero => rfl
    | succ room =>
      rw [readPiece, if_neg fun same => other same.symm, ih plain]
      rfl

/-- `fgets` stores something as long as there is text. -/
theorem fgets_more (size : Nat) (more : text ≠ []) :
    fgets size text =
      some ((readPiece (size - 1) text).1 ++ ['\x00'], (readPiece (size - 1) text).2) := by
  cases text with
  | nil => exact absurd rfl more
  | cons c text => rfl

@[simp] theorem pieces_nil : pieces room [] = [] := by
  rw [pieces, if_pos (.inl rfl)]

/-- The first piece that is read and those after it. -/
theorem pieces_more (positive : 0 < room) (more : text ≠ []) :
    pieces room text = (readPiece room text).1 :: pieces room (readPiece room text).2 := by
  rw [pieces, if_neg (not_or.mpr ⟨more, Nat.ne_of_gt positive⟩)]

section Reading

variable {β : Type} {f : List Char → Option β}

/-- The pieces that a line is read in, to a reader that ignores newlines and nothing. -/
theorem filterMap_pieces_line (positive : 0 < room)
    (ignores : ∀ piece, f (piece ++ ['\n']) = f piece) (nothing : f [] = none)
    (plain : '\n' ∉ line) :
    (pieces room (line ++ '\n' :: rest)).filterMap f =
      (chunks room line).filterMap f ++ (pieces room rest).filterMap f := by
  induction size : line.length using Nat.strong_induction_on generalizing line with
  | _ n ih =>
    have more : line ++ '\n' :: rest ≠ [] := by simp
    rw [pieces_more positive more]
    by_cases short : line.length < room
    · rw [readPiece_line plain short, List.filterMap_cons, ignores]
      by_cases empty : line = []
      · rw [empty, nothing, chunks_nil]
        rfl
      · rw [chunks_short empty (Nat.le_of_lt short), List.filterMap_cons]
        cases f line <;> rfl
    · have long : room ≤ line.length := Nat.le_of_not_lt short
      have empty : line ≠ [] := List.ne_nil_of_length_pos (Nat.lt_of_lt_of_le positive long)
      have left : '\n' ∉ line.drop room := fun inside => plain (List.mem_of_mem_drop inside)
      have later := ih (line.drop room).length (by rw [List.length_drop]; omega) left rfl
      rw [readPiece_front plain long, chunks_more positive empty, List.filterMap_cons,
        List.filterMap_cons, later]
      cases f (line.take room) <;> rfl

/-- The last line is read in its pieces. -/
theorem pieces_last (positive : 0 < room) (plain : '\n' ∉ line) :
    pieces room line = chunks room line := by
  induction size : line.length using Nat.strong_induction_on generalizing line with
  | _ n ih =>
    by_cases empty : line = []
    · rw [empty, pieces_nil, chunks_nil]
    · have long := List.length_pos_of_ne_nil empty
      have left : '\n' ∉ line.drop room := fun inside => plain (List.mem_of_mem_drop inside)
      have later := ih (line.drop room).length (by rw [List.length_drop]; omega) left rfl
      rw [pieces_more positive empty, readPiece_last plain, chunks_more positive empty, later]

/-- What is read of a text is what is read of its lines, each of them in pieces. -/
theorem filterMap_pieces (positive : 0 < room)
    (ignores : ∀ piece, f (piece ++ ['\n']) = f piece) (nothing : f [] = none) :
    (pieces room text).filterMap f = (lines text).flatMap fun line =>
      (chunks room line).filterMap f := by
  induction text using lines_induction with
  | empty => rw [pieces_nil, lines_nil, List.flatMap_nil, List.filterMap_nil]
  | last line more plain =>
    rw [pieces_last positive plain, lines_last more plain, List.flatMap_singleton]
  | next line rest plain ih =>
    rw [filterMap_pieces_line positive ignores nothing plain, lines_line plain,
      List.flatMap_cons, ih]

end Reading

end LineInput
