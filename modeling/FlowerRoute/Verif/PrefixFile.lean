import FlowerRoute.Model.PrefixFile
import FlowerRoute.Verif.Onload
import Mathlib.Algebra.Order.BigOperators.Group.List
import Mathlib.Algebra.Order.Group.Nat
import Mathlib.Data.List.TakeWhile

/-!
# The grammar of prefix files

What `onload_load_prefixes` calls `onload_add_prefix` for. The scanner sees a line in the pieces of
`fgets`, so it follows the grammar where the pieces of every line have the word of the line, and
nothing else.
-/

namespace FlowerRoute

open Outcome LineInput

section Grammar

variable {text word : List Char}

/-- A character of a prefix. -/
def isWordChar (c : Char) : Bool :=
  ('0' ≤ c ∧ c ≤ '9') ∨ ('a' ≤ c ∧ c ≤ 'f') ∨ ('A' ≤ c ∧ c ≤ 'F') ∨ (c = '.' ∨ c = ':' ∨ c = '/')

/-- A line of the file with a prefix: blanks, the word, blanks, and nothing or a comment. -/
def PrefixLine (text word : List Char) : Prop :=
  ∃ blanks blanks' comment, text = blanks ++ (word ++ (blanks' ++ comment)) ∧
    (∀ c ∈ blanks, isBlank c = true) ∧ word ≠ [] ∧ (∀ c ∈ word, isWordChar c = true) ∧
    (∀ c ∈ blanks', isBlank c = true) ∧ (comment = [] ∨ comment.head? = some '#')

/-- The word of a line. -/
def prefixWord (text : List Char) : Option (List Char) :=
  let body := text.dropWhile isBlank
  let word := body.takeWhile isWordChar
  let comment := (body.dropWhile isWordChar).dropWhile isBlank
  if word ≠ [] ∧ (comment = [] ∨ comment.head? = some '#') then some word else none

/-- The words of a file in the order of its lines. -/
def prefixWords (content : List Char) : List (List Char) := (lines content).filterMap prefixWord

variable {σ : Type}

/-- Calls for some words, up to the first one that is rejected. -/
def addPrefixes (onloadAddPrefix : List Char → σ → Except Fault (Int × σ)) :
    List (List Char) → σ → Except Fault (Int × σ)
  | [], s => .ok (0, s)
  | word :: later, s => do
    let (ret, s) ← onloadAddPrefix word s
    if ret ≠ 0 then return (ret, s)
    addPrefixes onloadAddPrefix later s

/-- The file is read as the grammar says: the calls are those for its words, whatever
`onload_add_prefix` does. -/
def FollowsGrammar (content : List Char) : Prop :=
  ∀ (σ : Type) (onloadAddPrefix : List Char → σ → Except Fault (Int × σ)) (s : σ),
    onloadLoadPrefixes onloadAddPrefix (.ok content) s =
      addPrefixes onloadAddPrefix (prefixWords content) s

/-- The pieces of a line, each up to its first zero, that are lines with a prefix themselves: that
is the line itself, if it is one, with its word. -/
def ReadWhole (text : List Char) : Prop :=
  (chunks 511 text).filterMap (fun piece => prefixWord (cString piece)) = (prefixWord text).toList

instance (text : List Char) : Decidable (ReadWhole text) := inferInstanceAs (Decidable (_ = _))

/-- The characters of a word are not blank, and end no line. -/
theorem isWordChar_other {c : Char} (inWord : isWordChar c = true) :
    isBlank c = false ∧ endsLine c = false := by
  have excluded : ∀ d ∈ [' ', '\t', '#', '\n', '\x00'], c ≠ d := by
    rintro d inside rfl
    have none : [' ', '\t', '#', '\n', '\x00'].all (isWordChar · == false) := by decide
    have outside := eq_of_beq (List.all_eq_true.mp none c inside)
    rw [outside] at inWord
    exact Bool.false_ne_true inWord
  simp only [List.mem_cons, List.not_mem_nil, or_false, forall_eq_or_imp, forall_eq] at excluded
  simp [isBlank, endsLine, excluded]

theorem isBlank_other {c : Char} (blank : isBlank c = true) :
    isWordChar c = false ∧ endsLine c = false := by
  have either : c = ' ' ∨ c = '\t' := by simpa [isBlank] using blank
  rcases either with rfl | rfl <;> decide

/-- A loop over a class of characters stops at the end of a text at the latest. -/
theorem dropWhile_stop {f : Char → Bool} {t : Char} (stops : f t = false) (text rest : List Char) :
    (text ++ t :: rest).dropWhile f = text.dropWhile f ++ t :: rest := by
  induction text with
  | nil => rw [List.nil_append, List.dropWhile_cons_of_neg (by simp [stops])]; rfl
  | cons c text ih =>
    rw [List.cons_append, List.dropWhile_cons, List.dropWhile_cons]
    split
    · exact ih
    · rfl

theorem takeWhile_stop {f : Char → Bool} {t : Char} (stops : f t = false) (text rest : List Char) :
    (text ++ t :: rest).takeWhile f = text.takeWhile f := by
  induction text with
  | nil => rw [List.nil_append, List.takeWhile_cons_of_neg (by simp [stops])]; rfl
  | cons c text ih =>
    rw [List.cons_append, List.takeWhile_cons, List.takeWhile_cons, ih]

/-- A loop over a class of characters passes over those in front of one that is not. -/
theorem dropWhile_front {f : Char → Bool} {front rest : List Char}
    (passed : ∀ c ∈ front, f c = true) (stops : ∀ c ∈ rest.head?, f c = false) :
    (front ++ rest).dropWhile f = rest ∧ (front ++ rest).takeWhile f = front := by
  rw [List.dropWhile_append_of_pos passed, List.takeWhile_append_of_pos passed]
  cases rest with
  | nil => exact ⟨rfl, List.append_nil front⟩
  | cons c rest =>
    have stop : ¬ f c = true := by simp [stops c rfl]
    rw [List.dropWhile_cons_of_neg stop, List.takeWhile_cons_of_neg stop, List.append_nil]
    exact ⟨rfl, rfl⟩

/-- The words are those of the grammar. -/
theorem prefixWord_eq_some : prefixWord text = some word ↔ PrefixLine text word := by
  constructor
  · intro read
    rw [prefixWord] at read
    split at read
    · next accepted =>
      cases read
      refine ⟨text.takeWhile isBlank, ((text.dropWhile isBlank).dropWhile isWordChar).takeWhile
        isBlank, _, ?_, fun c => List.mem_takeWhile_imp, accepted.1, fun c => List.mem_takeWhile_imp,
        fun c => List.mem_takeWhile_imp, accepted.2⟩
      rw [List.takeWhile_append_dropWhile, List.takeWhile_append_dropWhile,
        List.takeWhile_append_dropWhile]
    · cases read
  · rintro ⟨blanks, blanks', comment, rfl, areBlank, more, areWord, areBlank', ends⟩
    have noWord : ∀ c ∈ (blanks' ++ comment).head?, isWordChar c = false := by
      intro c first
      cases blanks' with
      | nil =>
        rcases ends with rfl | hash
        · cases first
        · rw [List.nil_append, hash] at first
          cases first
          decide
      | cons b blanks' =>
        cases first
        exact (isBlank_other (areBlank' _ List.mem_cons_self)).1
    have noBlank : ∀ c ∈ comment.head?, isBlank c = false := by
      intro c first
      rcases ends with rfl | hash
      · cases first
      · rw [hash] at first
        cases first
        decide
    have starts : ∀ c ∈ (word ++ (blanks' ++ comment)).head?, isBlank c = false := by
      intro c first
      cases word with
      | nil => exact absurd rfl more
      | cons d word =>
        cases first
        exact (isWordChar_other (areWord _ List.mem_cons_self)).1
    rw [prefixWord, (dropWhile_front areBlank starts).1, (dropWhile_front areWord noWord).1,
      (dropWhile_front areWord noWord).2, (dropWhile_front areBlank' noBlank).1]
    exact if_pos ⟨more, ends⟩

end Grammar

section Scanner

variable {p text rest : List Char}

/-- Dropping a class of characters and then a wider one. -/
theorem dropWhile_wider {f g : Char → Bool} (wider : ∀ c, f c = true → g c = true)
    (p : List Char) : (p.dropWhile f).dropWhile g = p.dropWhile g := by
  induction p with
  | nil => rfl
  | cons c p ih =>
    rw [List.dropWhile_cons]
    split
    · next inside => rw [ih, List.dropWhile_cons_of_pos (wider c inside)]
    · rfl

theorem length_dropWhile_le (f : Char → Bool) (p : List Char) :
    (p.dropWhile f).length ≤ p.length := (List.dropWhile_suffix f).length_le

/-- A round passes over a character of a word. -/
theorem skipClasses_word {c : Char} (inWord : isWordChar c = true) (p : List Char) :
    (skipClasses (c :: p)).length ≤ p.length := by
  have onwards : ∀ f : Char → Bool, ∀ q : List Char, q.length ≤ p.length →
      (q.dropWhile f).length ≤ p.length := fun f q short =>
    Nat.le_trans (length_dropWhile_le f q) short
  simp only [isWordChar, Bool.decide_or, Bool.decide_and, Bool.or_eq_true, Bool.and_eq_true,
    decide_eq_true_eq] at inWord
  dsimp only [skipClasses]
  by_cases digit : '0' ≤ c ∧ c ≤ '9'
  · rw [List.dropWhile_cons_of_pos (by simpa using digit)]
    exact onwards _ _ (onwards _ _ (onwards _ _ (onwards _ _ (Nat.le_refl _))))
  · rw [List.dropWhile_cons_of_neg (by simpa using digit)]
    by_cases lower : 'a' ≤ c ∧ c ≤ 'f'
    · rw [List.dropWhile_cons_of_pos (by simpa using lower)]
      exact onwards _ _ (onwards _ _ (onwards _ _ (Nat.le_refl _)))
    · rw [List.dropWhile_cons_of_neg (by simpa using lower)]
      by_cases upper : 'A' ≤ c ∧ c ≤ 'F'
      · rw [List.dropWhile_cons_of_pos (by simpa using upper)]
        exact onwards _ _ (onwards _ _ (Nat.le_refl _))
      · rw [List.dropWhile_cons_of_neg (by simpa using upper)]
        have mark : c = '.' ∨ c = ':' ∨ c = '/' := by tauto
        rw [List.dropWhile_cons_of_pos (by simpa using mark)]
        exact onwards _ _ (Nat.le_refl _)

/-- A round does not pass over any other character. -/
theorem skipClasses_other {c : Char} (outside : isWordChar c = false) (p : List Char) :
    skipClasses (c :: p) = c :: p := by
  have outside : ¬ isWordChar c = true := by simp [outside]
  simp only [isWordChar, Bool.decide_or, Bool.decide_and, Bool.or_eq_true, Bool.and_eq_true,
    decide_eq_true_eq, not_or] at outside
  obtain ⟨digit, lower, upper, mark⟩ := outside
  dsimp only [skipClasses]
  rw [List.dropWhile_cons_of_neg (by simpa using digit),
    List.dropWhile_cons_of_neg (by simpa using lower),
    List.dropWhile_cons_of_neg (by simpa using upper),
    List.dropWhile_cons_of_neg (by simpa using mark)]

/-- A round passes over characters of a word only. -/
theorem dropWhile_skipClasses (p : List Char) :
    (skipClasses p).dropWhile isWordChar = p.dropWhile isWordChar := by
  dsimp only [skipClasses]
  rw [dropWhile_wider fun c inside => ?_, dropWhile_wider fun c inside => ?_,
    dropWhile_wider fun c inside => ?_, dropWhile_wider fun c inside => ?_]
  all_goals
    simp only [Bool.decide_or, Bool.decide_and, Bool.or_eq_true, Bool.and_eq_true,
      decide_eq_true_eq] at inside
    simp only [isWordChar, Bool.decide_or, Bool.decide_and, Bool.or_eq_true, Bool.and_eq_true,
      decide_eq_true_eq]
    tauto

/-- The loop over the classes of characters ends, behind the word. -/
theorem skipWord_spec {fuel : Nat} (enough : p.length < fuel) :
    skipWord fuel p = .ok (p.dropWhile isWordChar) := by
  induction fuel generalizing p with
  | zero => exact absurd enough (Nat.not_lt_zero _)
  | succ fuel ih =>
    rw [skipWord]
    by_cases moved : (skipClasses p).length < p.length
    · rw [if_pos moved, ih (by omega), dropWhile_skipClasses]
    · rw [if_neg moved]
      cases p with
      | nil => rfl
      | cons c p =>
        have outside : isWordChar c = false := by
          by_contra inWord
          have passed := skipClasses_word (Bool.not_eq_false _ ▸ inWord) p
          rw [List.length_cons] at moved
          omega
        rw [skipClasses_other outside, List.dropWhile_cons_of_neg (by simp [outside])]

/-- A terminator behind a word leaves the word. -/
theorem cString_terminateAt {word more fin : List Char} (plain : '\x00' ∉ word)
    (place : more.length = fin.length) (positive : 0 < fin.length) :
    cString (terminateAt (word ++ more) fin) = word := by
  have index : (word ++ more).length - fin.length = word.length := by
    rw [List.length_append, place, Nat.add_sub_cancel]
  cases more with
  | nil => exact absurd place (Nat.ne_of_lt positive)
  | cons c more =>
    rw [terminateAt, index, List.set_append_right _ _ (Nat.le_refl _), Nat.sub_self,
      List.set_cons_zero, cString]
    refine (dropWhile_front (fun c inside => ?_) fun c first => ?_).2
    · have other : c ≠ '\x00' := fun same => plain (same ▸ inside)
      simp [other]
    · cases first
      decide

/-- A terminator further behind leaves it too. -/
theorem terminateAt_behind {word more p : List Char} (short : p.length ≤ more.length) :
    ∃ more', terminateAt (word ++ more) p = word ++ more' ∧ more'.length = more.length := by
  refine ⟨more.set (more.length - p.length) '\x00', ?_, List.length_set⟩
  have index : (word ++ more).length - p.length = word.length + (more.length - p.length) := by
    rw [List.length_append]
    omega
  rw [terminateAt, index, List.set_append_right _ _ (Nat.le_add_right _ _),
    Nat.add_sub_cancel_left]

/-- What is behind the word decides whether there is a call, which is for the word. -/
theorem onloadScan_behind {t : Char} (isEnd : endsLine t = true) {word fin p : List Char}
    (plain : '\x00' ∉ word) (suffix : p <:+ fin) (more : word = [] → ∃ c ∈ p.head?, c ≠ '#')
    (onlyHash : ∀ c ∈ p, (endsLine c = true ↔ c = '#')) (rest : List Char) :
    (do
      if ¬ endsLine (← charAt (p ++ t :: rest)) then return none
      let line := if (← charAt (p ++ t :: rest)) = '\n' then
        terminateAt (word ++ (fin ++ t :: rest)) (p ++ t :: rest) else word ++ (fin ++ t :: rest)
      return some (cString (terminateAt line (fin ++ t :: rest))) : Except Fault _) =
    .ok (if word ≠ [] ∧ (p = [] ∨ p.head? = some '#') then some word else none) := by
  have called : ∀ c, some (cString (terminateAt (if c = '\n' then
      terminateAt (word ++ (fin ++ t :: rest)) (p ++ t :: rest) else word ++ (fin ++ t :: rest))
      (fin ++ t :: rest))) = some word := by
    intro c
    have short := suffix.length_le
    have positive : 0 < (fin ++ t :: rest).length := by
      rw [List.length_append, List.length_cons]
      omega
    have nearer : (p ++ t :: rest).length ≤ (fin ++ t :: rest).length := by
      simp only [List.length_append]
      omega
    split
    · obtain ⟨more, written, length⟩ := @terminateAt_behind word _ _ nearer
      rw [written, cString_terminateAt plain length positive]
    · rw [cString_terminateAt plain rfl positive]
  cases p with
  | nil =>
    have someWord : word ≠ [] := fun none => by
      obtain ⟨c, first, -⟩ := more none
      cases first
    rw [if_pos (⟨someWord, .inl rfl⟩ :
      word ≠ [] ∧ (([] : List Char) = [] ∨ ([] : List Char).head? = some '#'))]
    simp only [List.nil_append, charAt, ok_bind, isEnd, not_true_eq_false, if_false]
    exact congrArg Except.ok (called t)
  | cons d p =>
    simp only [List.cons_append, charAt, ok_bind]
    by_cases comment : d = '#'
    · have someWord : word ≠ [] := fun none => by
        obtain ⟨c, first, other⟩ := more none
        cases first
        exact other comment
      have goesOn := (onlyHash d List.mem_cons_self).mpr comment
      rw [if_pos (⟨someWord, .inr (congrArg some comment)⟩ :
        word ≠ [] ∧ (d :: p = [] ∨ (d :: p).head? = some '#'))]
      simp only [goesOn, not_true_eq_false, if_false]
      exact congrArg Except.ok (called d)
    · have other : ¬ endsLine d = true := fun ends =>
        comment ((onlyHash d List.mem_cons_self).mp ends)
      rw [if_pos other, if_neg]
      · rfl
      · rintro ⟨-, nothing | hash⟩
        · cases nothing
        · exact comment (Option.some.inj hash)

/-- The scanner calls `onload_add_prefix` for the word of what is in front of the newline or the
terminator. -/
theorem onloadScan_spec {t : Char} (ends : t = '\n' ∨ t = '\x00') (newline : '\n' ∉ text)
    (terminator : '\x00' ∉ text) (rest : List Char) :
    onloadScan (text ++ t :: rest) = .ok (prefixWord text) := by
  have stops : isBlank t = false ∧ isWordChar t = false ∧ endsLine t = true := by
    rcases ends with rfl | rfl <;> decide
  obtain ⟨noBlank, noWord, isEnd⟩ := stops
  rw [onloadScan, prefixWord, skipBlanks, dropWhile_stop noBlank]
  have within : ∀ c ∈ text.dropWhile isBlank, c ≠ '\n' ∧ c ≠ '\x00' := fun c inside => by
    have member := (List.dropWhile_suffix isBlank).subset inside
    exact ⟨fun same => newline (same ▸ member), fun same => terminator (same ▸ member)⟩
  have first : ∀ c ∈ (text.dropWhile isBlank).head?, isBlank c = false := fun c head => by
    have stop := List.head?_dropWhile_not isBlank text
    rw [head] at stop
    simpa using stop
  generalize text.dropWhile isBlank = body at within first
  have onlyHash : ∀ c ∈ body, (endsLine c = true ↔ c = '#') := fun c inside => by
    simp [endsLine, within c inside]
  cases body with
  | nil =>
    simp only [List.nil_append, charAt, ok_bind, isEnd, if_true]
    rfl
  | cons c body =>
    have hash := onlyHash c List.mem_cons_self
    by_cases comment : c = '#'
    · subst comment
      have noWord : isWordChar '#' = false := by decide
      simp only [List.cons_append, charAt, ok_bind, hash.mpr rfl, if_true]
      rw [if_neg]
      · rfl
      · rw [List.takeWhile_cons_of_neg (by simp [noWord])]
        exact fun both => both.1 rfl
    · have goesOn : endsLine c = false := by
        by_contra other
        exact comment (hash.mp (by simpa using other))
      rw [List.cons_append, charAt, ok_bind, goesOn]
      simp only [Bool.false_eq_true, if_false]
      rw [skipWord_spec (Nat.lt_succ_self _), ok_bind, ← List.cons_append, dropWhile_stop noWord,
        skipBlanks, dropWhile_stop noBlank]
      have split : (c :: body).takeWhile isWordChar ++ (c :: body).dropWhile isWordChar =
        c :: body := List.takeWhile_append_dropWhile
      have whole : c :: body ++ t :: rest = (c :: body).takeWhile isWordChar ++
          ((c :: body).dropWhile isWordChar ++ t :: rest) := by
        rw [← List.append_assoc, split]
      rw [whole]
      refine onloadScan_behind isEnd (fun inside => ?_) (List.dropWhile_suffix _) (fun none => ?_)
        (fun d inside => onlyHash d ?_) rest
      · exact (within _ ((List.takeWhile_prefix isWordChar).subset inside)).2 rfl
      · rw [none, List.nil_append] at split
        rw [split, List.dropWhile_cons_of_neg (by simp [first c rfl])]
        exact ⟨c, rfl, comment⟩
      · exact (List.dropWhile_suffix _).subset ((List.dropWhile_suffix _).subset inside)

end Scanner

section Reading

variable {piece content line : List Char}

/-- Whether a character is neither a newline nor a terminator. -/
def inLine (c : Char) : Bool := c ≠ '\n' ∧ c ≠ '\x00'

/-- The word that the scanner finds in a piece of a line. -/
def pieceWord (piece : List Char) : Option (List Char) := prefixWord (piece.takeWhile inLine)

/-- The words that it finds in the pieces of a line. -/
def lineReads (line : List Char) : List (List Char) := (chunks 511 line).filterMap pieceWord

/-- The scanner on what `fgets` stores. -/
theorem onloadScan_piece (piece : List Char) :
    onloadScan (piece ++ ['\x00']) = .ok (pieceWord piece) := by
  have stops : inLine '\x00' = false := by decide
  have within : ∀ c ∈ piece.takeWhile inLine, c ≠ '\n' ∧ c ≠ '\x00' := fun c inside => by
    have kept := List.mem_takeWhile_imp inside
    simpa [inLine] using kept
  have split : (piece ++ ['\x00']).takeWhile inLine ++ (piece ++ ['\x00']).dropWhile inLine =
    piece ++ ['\x00'] := List.takeWhile_append_dropWhile
  have first := List.head?_dropWhile_not inLine (piece ++ ['\x00'])
  rw [takeWhile_stop stops] at split
  rw [dropWhile_stop stops] at split first
  cases behind : piece.dropWhile inLine ++ ['\x00'] with
  | nil => simp at behind
  | cons t rest =>
    rw [behind] at split first
    rw [← split, pieceWord]
    refine onloadScan_spec ?_ (fun inside => (within _ inside).1 rfl)
      (fun inside => (within _ inside).2 rfl) rest
    have last : ¬ (t ≠ '\n' ∧ t ≠ '\x00') := by simpa [inLine] using first
    tauto

section Calls

variable {σ : Type} {add : List Char → σ → Except Fault (Int × σ)} {s : σ}

/-- The loop over `fgets` ends, and calls for the words of the pieces in their order. -/
theorem onloadFreadPrefix_spec {fuel : Nat} (enough : content.length ≤ fuel) :
    onloadFreadPrefix add fuel content s =
      addPrefixes add ((pieces 511 content).filterMap pieceWord) s := by
  induction fuel generalizing content s with
  | zero =>
    rw [List.eq_nil_of_length_eq_zero (Nat.le_zero.mp enough), pieces_nil]
    rfl
  | succ fuel ih =>
    by_cases nothing : content = []
    · rw [nothing, pieces_nil]
      rfl
    · have room : lineMaxLen - 1 = 511 := rfl
      have left := length_readPiece (by decide : 0 < 511) nothing
      rw [onloadFreadPrefix, fgets_more _ nothing, pieces_more (by decide) nothing,
        List.filterMap_cons, room]
      simp only [onloadScan_piece, ok_bind]
      cases pieceWord (readPiece 511 content).1 with
      | none => exact ih (by omega)
      | some word =>
        simp only [addPrefixes]
        refine congrArg (_ >>= ·) (funext fun result => ?_)
        split
        · rfl
        · exact ih (by omega)

theorem pieceWord_newline (piece : List Char) : pieceWord (piece ++ ['\n']) = pieceWord piece := by
  rw [pieceWord, pieceWord, takeWhile_stop (by decide : inLine '\n' = false)]

/-- In a piece without a newline the word is that of its front up to the first zero. -/
theorem pieceWord_plain (plain : '\n' ∉ piece) : pieceWord piece = prefixWord (cString piece) := by
  have same : piece.takeWhile inLine = cString piece := by
    rw [cString]
    induction piece with
    | nil => rfl
    | cons c piece ih =>
      obtain ⟨other, plain⟩ := List.ne_and_not_mem_of_not_mem_cons plain
      have agree : inLine c = decide (c ≠ '\x00') := by
        simp [inLine, other.symm]
      rw [List.takeWhile_cons, List.takeWhile_cons, agree, ih plain]
  rw [pieceWord, same]

/-- The calls are those for the words in the pieces of the lines. -/
theorem onloadLoadPrefixes_spec :
    onloadLoadPrefixes add (.ok content) s =
      addPrefixes add ((lines content).flatMap lineReads) s := by
  rw [onloadLoadPrefixes, onloadFreadPrefix_spec (Nat.le_refl _),
    filterMap_pieces (by decide) pieceWord_newline rfl]
  rfl

end Calls

/-- The pieces of a line have no other characters. -/
theorem mem_chunks {width : Nat} (inside : piece ∈ chunks width line) : piece ⊆ line := by
  induction size : line.length using Nat.strong_induction_on generalizing line with
  | _ n ih =>
    rw [chunks] at inside
    split at inside
    · cases inside
    · next more =>
      obtain ⟨more, wide⟩ := not_or.mp more
      have long := List.length_pos_of_ne_nil more
      rcases List.mem_cons.mp inside with rfl | inside
      · exact List.take_subset width line
      · have deeper := ih _ (by rw [List.length_drop]; omega) inside rfl
        exact List.Subset.trans deeper (List.drop_subset width line)

/-- What the scanner finds in a line, when a line is read whole. -/
theorem lineReads_eq (plain : '\n' ∉ line) :
    lineReads line = (chunks 511 line).filterMap fun piece => prefixWord (cString piece) := by
  refine List.filterMap_congr fun piece inside => ?_
  exact pieceWord_plain fun newline => plain (mem_chunks inside newline)

end Reading

section Pieces

variable {line word content : List Char}

/-- Up to the first zero, a text in front of another that has none goes on. -/
theorem cString_append {front : List Char} (plain : '\x00' ∉ front) (rest : List Char) :
    cString (front ++ rest) = front ++ cString rest := by
  refine List.takeWhile_append_of_pos fun c inside => ?_
  have other : c ≠ '\x00' := fun same => plain (same ▸ inside)
  simp [other]

theorem noTerminator {f : Char → Bool} {front : List Char} (stops : f '\x00' = false)
    (all : ∀ c ∈ front, f c = true) : '\x00' ∉ front := fun inside => by
  have kept := all _ inside
  rw [stops] at kept
  exact Bool.false_ne_true kept

/-- The front of a line with a prefix is one too, as soon as some of the word is in it. -/
theorem PrefixLine.take {blanks blanks' comment : List Char} {width : Nat}
    (areBlank : ∀ c ∈ blanks, isBlank c = true) (more : word ≠ [])
    (areWord : ∀ c ∈ word, isWordChar c = true) (areBlank' : ∀ c ∈ blanks', isBlank c = true)
    (ends : comment = [] ∨ comment.head? = some '#') (reached : blanks.length < width) :
    PrefixLine (cString ((blanks ++ (word ++ (blanks' ++ comment))).take width))
      (word.take (width - blanks.length)) := by
  have areWord' : ∀ c ∈ word.take (width - blanks.length), isWordChar c = true := fun c inside =>
    areWord c (List.mem_of_mem_take inside)
  have areBlank'' : ∀ c ∈ blanks'.take (width - blanks.length - word.length), isBlank c = true :=
    fun c inside => areBlank' c (List.mem_of_mem_take inside)
  rw [List.take_append, List.take_of_length_le (Nat.le_of_lt reached), List.take_append,
    List.take_append, cString_append (noTerminator (by decide) areBlank),
    cString_append (noTerminator (by decide) areWord'),
    cString_append (noTerminator (by decide) areBlank'')]
  refine ⟨blanks, _, _, rfl, areBlank, fun none => ?_, areWord', areBlank'', ?_⟩
  · rcases List.take_eq_nil_iff.mp none with zero | nothing
    · omega
    · exact more nothing
  · generalize width - blanks.length - word.length - blanks'.length = left
    cases comment with
    | nil =>
      rw [List.take_nil]
      exact .inl rfl
    | cons c comment =>
      have hash : c = '#' := by simpa using ends
      subst hash
      cases left with
      | zero => exact .inl rfl
      | succ left => exact .inr rfl

/-- Some piece of a line with a prefix is one. -/
theorem PrefixLine.read (own : PrefixLine line word) :
    (chunks 511 line).filterMap (fun piece => prefixWord (cString piece)) ≠ [] := by
  obtain ⟨blanks, blanks', comment, rfl, areBlank, more, areWord, areBlank', ends⟩ := own
  induction size : blanks.length using Nat.strong_induction_on generalizing blanks with
  | _ n ih =>
    have something : blanks ++ (word ++ (blanks' ++ comment)) ≠ [] := by simp [more]
    rw [chunks_more (by decide) something, List.filterMap_cons]
    by_cases reached : blanks.length < 511
    · have first := prefixWord_eq_some.mpr
        (PrefixLine.take areBlank more areWord areBlank' ends reached)
      rw [first]
      exact List.cons_ne_nil _ _
    · have later := ih (blanks.drop 511).length (by rw [List.length_drop]; omega) (blanks.drop 511)
        (fun c inside => areBlank c (List.mem_of_mem_drop inside)) rfl
      rw [List.drop_append_of_le_length (by omega)]
      split
      · exact later
      · exact List.cons_ne_nil _ _

/-- Lists that are put together from parts of the same or greater lengths, and are the same, have
the same parts. -/
theorem flatMap_parts {α β : Type} {f g : α → List β} {parts : List α}
    (longer : ∀ part ∈ parts, (g part).length ≤ (f part).length)
    (same : parts.flatMap f = parts.flatMap g) : ∀ part ∈ parts, f part = g part := by
  induction parts with
  | nil => exact fun part inside => absurd inside List.not_mem_nil
  | cons first parts ih =>
    have later : ∀ part ∈ parts, (g part).length ≤ (f part).length := fun part inside =>
      longer part (List.mem_cons_of_mem _ inside)
    have total : (parts.flatMap g).length ≤ (parts.flatMap f).length := by
      rw [List.length_flatMap, List.length_flatMap]
      exact List.sum_le_sum later
    rw [List.flatMap_cons, List.flatMap_cons] at same
    have lengths := congrArg List.length same
    rw [List.length_append, List.length_append] at lengths
    have head := longer first List.mem_cons_self
    obtain ⟨here, rest⟩ := List.append_inj same (by omega)
    intro part inside
    rcases List.mem_cons.mp inside with rfl | inside
    · exact here
    · exact ih later rest part inside

end Pieces

/-- A file is read as the grammar says exactly when every line is read whole. -/
theorem followsGrammar_iff {content : List Char} :
    FollowsGrammar content ↔ ∀ line ∈ lines content, ReadWhole line := by
  have reads : ∀ line ∈ lines content, (ReadWhole line ↔
      lineReads line = (prefixWord line).toList) := fun line inside => by
    rw [ReadWhole, lineReads_eq (newline_notMem_lines line inside)]
  constructor
  · intro follows line inside
    -- a function that accepts every word and keeps it shows the calls
    let keep : List Char → List (List Char) → Except Fault (Int × List (List Char)) :=
      fun word s => .ok (0, s ++ [word])
    have kept : ∀ words s, addPrefixes keep words s = .ok (0, s ++ words) := by
      intro words
      induction words with
      | nil => exact fun s => by rw [List.append_nil]; rfl
      | cons word words ih =>
        intro s
        show addPrefixes keep words (s ++ [word]) = _
        rw [ih, List.append_assoc]
        rfl
    have same := follows _ keep []
    rw [onloadLoadPrefixes_spec, kept, kept, prefixWords,
      List.filterMap_eq_flatMap_toList] at same
    have calls : (lines content).flatMap lineReads =
        (lines content).flatMap fun line => (prefixWord line).toList := by
      simpa using same
    refine (reads line inside).mpr (flatMap_parts (fun other member => ?_) calls line inside)
    rw [lineReads_eq (newline_notMem_lines other member)]
    cases own : prefixWord other with
    | none => exact Nat.zero_le _
    | some word => exact List.length_pos_of_ne_nil (prefixWord_eq_some.mp own).read
  · intro whole σ add s
    rw [onloadLoadPrefixes_spec, prefixWords, List.filterMap_eq_flatMap_toList]
    exact congrArg (addPrefixes add · s)
      (List.flatMap_congr fun line inside => (reads line inside).mp (whole line inside))

/-- Every line of at most 511 characters without zeros is read whole. -/
theorem readWhole_short {line : List Char} (short : line.length ≤ 511) (plain : '\x00' ∉ line) :
    ReadWhole line := by
  have whole : cString line = line := by
    have own := cString_append plain []
    rwa [List.append_nil, show cString [] = [] from rfl, List.append_nil] at own
  unfold ReadWhole
  by_cases nothing : line = []
  · rw [nothing, chunks_nil]
    rfl
  · rw [chunks_short nothing short, List.filterMap_cons, whole]
    cases prefixWord line <;> rfl

/-- Calls that return make a sequence of calls that returns. -/
theorem addPrefixes_returns {σ : Type} {add : List Char → σ → Except Fault (Int × σ)}
    (returns : ∀ word s, ∃ result, add word s = .ok result) (words : List (List Char)) (s : σ) :
    ∃ result, addPrefixes add words s = .ok result := by
  induction words generalizing s with
  | nil => exact ⟨_, rfl⟩
  | cons word words ih =>
    obtain ⟨⟨ret, s'⟩, called⟩ := returns word s
    rw [addPrefixes, called, ok_bind]
    by_cases rejected : ret ≠ 0
    · exact ⟨(ret, s'), if_pos rejected⟩
    · simp only [rejected, if_false]
      exact ih s'

/-- `onload_add_prefix` returns 0 or `-EINVAL`. -/
theorem onloadAddPrefix_ret {p : InetPton} {listName word : List Char}
    {config config' : PrefixConfig} {ret : Int}
    (ran : onloadAddPrefix p listName word config = .ok (ret, config')) :
    ret = 0 ∨ ret = minusEinval := by
  rw [onloadAddPrefix] at ran
  split at ran
  · cases ran
    exact .inr rfl
  · dsimp only at ran
    split at ran
    · cases ran
      exact .inr rfl
    · obtain ⟨_, -, ran⟩ := bind_returned ran
      cases ran
      exact .inl rfl

/-- So does a sequence of calls of it. -/
theorem addPrefixes_ret {p : InetPton} {listName : List Char} {words : List (List Char)}
    {config config' : PrefixConfig} {ret : Int}
    (ran : addPrefixes (onloadAddPrefix p listName) words config = .ok (ret, config')) :
    ret = 0 ∨ ret = minusEinval := by
  induction words generalizing config with
  | nil =>
    cases ran
    exact .inl rfl
  | cons word words ih =>
    obtain ⟨⟨ret₁, config₁⟩, called, ran⟩ := bind_returned ran
    dsimp only at ran
    split at ran
    · cases ran
      exact onloadAddPrefix_ret called
    · exact ih ran

/-- A file of prefixes is read as the grammar says exactly when every line is read whole; the
loops end on every file, and its result is 0 or `-EINVAL`. -/
theorem prefix_file_grammar (content : List Char) :
    (FollowsGrammar content ↔ ∀ line ∈ lines content, ReadWhole line) ∧
    (∀ (σ : Type) (add : List Char → σ → Except Fault (Int × σ)) (s : σ),
      (∀ word s, ∃ result, add word s = .ok result) →
      ∃ result, onloadLoadPrefixes add (.ok content) s = .ok result) ∧
    ∀ (p : InetPton) (listName : List Char) (config config' : PrefixConfig) (ret : Int),
      onloadLoadPrefixes (onloadAddPrefix p listName) (.ok content) config = .ok (ret, config') →
      ret = 0 ∨ ret = minusEinval := by
  refine ⟨followsGrammar_iff, fun σ add s returns => ?_, fun p listName config config' ret ran => ?_⟩
  · rw [onloadLoadPrefixes_spec]
    exact addPrefixes_returns returns _ s
  · rw [onloadLoadPrefixes_spec] at ran
    exact addPrefixes_ret ran

/-- A comment of 511 characters and then a prefix. -/
def longComment : List Char := '#' :: List.replicate 510 'x' ++ "192.0.2.0/24".toList

/-- Its pieces are the comment and the prefix. -/
theorem lineReads_longComment : lineReads longComment = ["192.0.2.0/24".toList] := by
  have length : ('#' :: List.replicate 510 'x').length = 511 := by
    rw [List.length_cons, List.length_replicate]
  have first : pieceWord ('#' :: List.replicate 510 'x') = none := by
    rw [pieceWord, List.takeWhile_cons_of_pos (by decide), prefixWord,
      List.dropWhile_cons_of_neg (by decide), List.takeWhile_cons_of_neg (by decide)]
    exact if_neg fun both => both.1 rfl
  rw [lineReads, longComment, chunks_more (by decide)
    (List.append_ne_nil_of_left_ne_nil (List.cons_ne_nil _ _) _),
    List.take_left' length, List.drop_left' length, List.filterMap_cons, first,
    chunks_short (by decide) (by decide)]
  rfl

/-- The prefix behind the comment is stored, though the file has none. -/
theorem prefix_file_comment :
    ∃ content, lines content = [longComment] ∧ prefixWords content = [] ∧
      (∃ config, onloadLoadPrefixes (onloadAddPrefix documentationPton "onload".toList)
        (.ok content) {} = .ok (0, config) ∧
        config.contents = [("onload".toList, [[2, 24, 2, 0] ++ List.replicate 16 0])]) ∧
      ¬ FollowsGrammar content := by
  have plain : '\n' ∉ longComment := by
    rw [longComment, List.mem_append, List.mem_cons, List.mem_replicate]
    decide
  have one : lines longComment = [longComment] :=
    lines_last (List.append_ne_nil_of_left_ne_nil (List.cons_ne_nil _ _) _) plain
  have noWord : prefixWord longComment = none := by
    rw [prefixWord, longComment, List.cons_append, List.dropWhile_cons_of_neg (by decide),
      List.takeWhile_cons_of_neg (by decide)]
    exact if_neg fun both => both.1 rfl
  have noWords : prefixWords longComment = [] := by
    rw [prefixWords, one, List.filterMap_cons, noWord, List.filterMap_nil]
  obtain ⟨config, called, contents⟩ : ∃ config, addPrefixes (onloadAddPrefix documentationPton
      "onload".toList) ["192.0.2.0/24".toList] {} = .ok (0, config) ∧
      config.contents = [("onload".toList, [[2, 24, 2, 0] ++ List.replicate 16 0])] :=
    ⟨_, rfl, rfl⟩
  have ran : onloadLoadPrefixes (onloadAddPrefix documentationPton "onload".toList)
      (.ok longComment) {} = .ok (0, config) := by
    rw [onloadLoadPrefixes_spec, one, List.flatMap_singleton, lineReads_longComment, called]
  refine ⟨longComment, one, noWords, ⟨config, ran, contents⟩, fun follows => ?_⟩
  have kept := follows _ (onloadAddPrefix documentationPton "onload".toList) {}
  rw [ran, noWords] at kept
  cases kept
  exact absurd contents (by decide)

/-- A comment, and a line with one prefix. -/
def onePrefixFile : List Char := "# static\n 192.0.2.0/24 \n".toList

/-- Its lines are short, so it is read as the grammar says. -/
theorem prefix_file_grammar_one :
    FollowsGrammar onePrefixFile ∧ prefixWords onePrefixFile = ["192.0.2.0/24".toList] ∧
    (∃ result, onloadLoadPrefixes (fun word s => .ok ((0 : Int), s ++ [word]))
      (.ok onePrefixFile) ([] : List (List Char)) = .ok result) ∧
    ∀ config' ret, onloadLoadPrefixes (onloadAddPrefix documentationPton "onload".toList)
      (.ok onePrefixFile) {} = .ok (ret, config') → ret = 0 ∨ ret = minusEinval := by
  obtain ⟨grammar, ends, result⟩ := prefix_file_grammar onePrefixFile
  have split : lines onePrefixFile = ["# static".toList, " 192.0.2.0/24 ".toList] := by decide
  refine ⟨grammar.mpr fun line inside => ?_, by decide, ends _ _ _ fun word s => ⟨_, rfl⟩,
    fun config' ret => result _ _ _ config' ret⟩
  rw [split] at inside
  rcases List.mem_cons.mp inside with rfl | inside
  · exact readWhole_short (by decide) (by decide)
  · rw [List.mem_singleton.mp inside]
    exact readWhole_short (by decide) (by decide)

end FlowerRoute
