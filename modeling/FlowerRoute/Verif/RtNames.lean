import FlowerRoute.Model.RtNames
import FlowerRoute.Verif.PrefixFile

/-!
# Files of table names

Which entries `rt_names_read_file` makes of a file of ids and names. A line's id is right where
`id2 > 0` tells that it was read by `%d`, and where that is not so but the id is still 0 from the
line before.
-/

namespace FlowerRoute

open Outcome LineInput

section Grammar

/-- The id of a line as it is written. -/
inductive TableId
  | decimal (digits : List Char)
  | hexadecimal (digits : List Char)
  deriving DecidableEq, Repr

namespace TableId

/-- Its characters. -/
def text : TableId → List Char
  | decimal digits => digits
  | hexadecimal digits => '0' :: 'x' :: digits

/-- The number that it stands for. -/
def value : TableId → Nat
  | decimal digits => digitsValue digits
  | hexadecimal digits => hexDigitsValue digits

/-- It has digits, of its base, and stands for a table id. -/
def Valid (n : TableId) : Prop :=
  n.value < 2 ^ 32 ∧
    match n with
    | decimal digits => digits ≠ [] ∧ ∀ c ∈ digits, c.isDigit = true
    | hexadecimal digits => digits ≠ [] ∧ ∀ c ∈ digits, isHexDigit c = true

/-- Its number is the one that is read, whatever came before: `%x` reads it, or it is in the range
of `%d` and positive, or it is 0 like the id of the line before. -/
def Fits (previous : Option Nat) : TableId → Prop
  | decimal digits => 0 < digitsValue digits ∧ digitsValue digits < 2 ^ 31 ∨
      digitsValue digits = 0 ∧ previous = some 0
  | hexadecimal _ => True

end TableId

/-- A line with an id and a name, and maybe a comment. -/
def IdLine (line : List Char) (n : TableId) (name : List Char) : Prop :=
  ∃ indent gap behind, line = indent ++ (n.text ++ (gap ++ (name ++ behind))) ∧
    (∀ c ∈ indent, isBlank c = true) ∧ n.Valid ∧
    gap ≠ [] ∧ (∀ c ∈ gap, isBlank c = true) ∧
    name ≠ [] ∧ (∀ c ∈ name, isSpace c = false ∧ c ≠ '\x00') ∧
    ((∀ c ∈ behind, isBlank c = true) ∨ ∃ blanks comment, behind = blanks ++ '#' :: comment ∧
      blanks ≠ [] ∧ ∀ c ∈ blanks, isBlank c = true)

/-- A blank line or a comment. -/
def EmptyLine (line : List Char) : Prop :=
  ∃ indent comment, line = indent ++ comment ∧ (∀ c ∈ indent, isBlank c = true) ∧
    (comment = [] ∨ comment.head? = some '#')

/-- What a line says: nothing, or an id and a name. -/
def Means (line : List Char) : Option (TableId × List Char) → Prop
  | none => EmptyLine line
  | some (n, name) => IdLine line n name

/-- A file of such lines, shorter than the buffer of the reader. -/
def NamesFile (content : List Char) (items : List (Option (TableId × List Char))) : Prop :=
  (∀ line ∈ lines content, line.length < nameMaxLen) ∧ List.Forall₂ Means (lines content) items

/-- The entries that it says. -/
def saidEntries (items : List (Option (TableId × List Char))) : List RtNamesEntry :=
  items.filterMap (Option.map fun item => ⟨UInt32.ofNat item.1.value, item.2⟩)

/-- Every id is one that is read, with the id before. -/
def IdsFit : Option Nat → List (Option (TableId × List Char)) → Prop
  | _, [] => True
  | previous, none :: items => IdsFit previous items
  | previous, some (n, _) :: items => n.Fits previous ∧ IdsFit (some n.value) items

/-- Reading a file appends what it says, wherever `id` begins and whatever `sscanf` stores for
numbers that are too large. -/
def ReadsNames (content : List Char) (items : List (Option (TableId × List Char))) : Prop :=
  ∀ (overflow : Overflow) (id : UInt32) (entries : List RtNamesEntry),
    rtNamesReadFile overflow id (.ok content) entries = .ok (0, entries ++ saidEntries items)

end Grammar

section Numbers

variable {overflow : Overflow} {digits rest : List Char} {format : List Directive}

theorem isBlank_isSpace {c : Char} (blank : isBlank c = true) : isSpace c = true := by
  have either : c = ' ' ∨ c = '\t' := by simpa [isBlank] using blank
  rcases either with rfl | rfl <;> decide

/-- A digit is no sign, and neither it nor a blank is an `x`. -/
theorem isHexDigit_other {c : Char} (digit : isHexDigit c = true) :
    isSpace c = false ∧ c ≠ '-' ∧ c ≠ '+' ∧ c ≠ 'x' ∧ c ≠ 'X' ∧ c ≠ '#' := by
  have excluded : ∀ d ∈ [' ', '\t', '\n', '\x0b', '\x0c', '\r', '-', '+', 'x', 'X', '#'], c ≠ d := by
    rintro d inside rfl
    have none : [' ', '\t', '\n', '\x0b', '\x0c', '\r', '-', '+', 'x', 'X', '#'].all
        (isHexDigit · == false) := by decide
    have outside := eq_of_beq (List.all_eq_true.mp none c inside)
    rw [outside] at digit
    exact Bool.false_ne_true digit
  simp only [List.mem_cons, List.not_mem_nil, or_false, forall_eq_or_imp, forall_eq] at excluded
  simp [isSpace, excluded]

theorem isDigit_isHexDigit {c : Char} (digit : c.isDigit = true) : isHexDigit c = true := by
  have bounds : '0' ≤ c ∧ c ≤ '9' := by
    simpa [Char.isDigit, Char.le_def] using digit
  simp [isHexDigit, bounds]

/-- A number without a sign is read up to the blanks behind it. -/
theorem readNumber_digits {isDigit : Char → Bool} (value : List Char → Nat)
    {skipBase : List Char → List Char} (hex : ∀ c, isDigit c = true → isHexDigit c = true)
    (more : digits ≠ []) (all : ∀ c ∈ digits, isDigit c = true)
    (stops : ∀ c ∈ rest.head?, isDigit c = false) (base : skipBase (digits ++ rest) = digits ++ rest) :
    readNumber isDigit value skipBase (digits ++ rest) = some ((value digits : Int), rest) := by
  have unsigned : readSign (digits ++ rest) = (false, digits ++ rest) := by
    cases digits with
    | nil => exact absurd rfl more
    | cons c digits =>
      obtain ⟨-, minus, plus, -⟩ := isHexDigit_other (hex c (all c List.mem_cons_self))
      rw [List.cons_append, readSign]
      · exact fun number same => minus (List.cons.inj same).1
      · exact fun number same => plus (List.cons.inj same).1
  simp only [readNumber, unsigned, base, (dropWhile_front all stops).1,
    (dropWhile_front all stops).2, more, if_false, Bool.false_eq_true]

/-- Digits in front of a blank have no `0x` before them. -/
theorem skipHexPrefix_digits {b : Char} (all : ∀ c ∈ digits, isHexDigit c = true)
    (blank : isBlank b = true) :
    skipHexPrefix (digits ++ b :: rest) = digits ++ b :: rest := by
  have noX : b ≠ 'x' ∧ b ≠ 'X' := by
    constructor <;> (rintro rfl; exact absurd blank (by decide))
  have second : ∀ c number, digits ++ b :: rest = '0' :: c :: number → c ≠ 'x' ∧ c ≠ 'X' := by
    intro c number same
    cases digits with
    | nil =>
      obtain ⟨rfl, -⟩ := List.cons.inj same
      exact absurd blank (by decide)
    | cons d digits =>
      obtain ⟨-, same⟩ := List.cons.inj same
      cases digits with
      | nil =>
        obtain ⟨rfl, -⟩ := List.cons.inj same
        exact noX
      | cons e digits =>
        obtain ⟨rfl, -⟩ := List.cons.inj same
        obtain ⟨-, -, -, lower, upper, -⟩ := isHexDigit_other (all e (by simp))
        exact ⟨lower, upper⟩
  rw [skipHexPrefix]
  · exact fun number same => (second 'x' number same).1 rfl
  · exact fun number same => (second 'X' number same).2 rfl

end Numbers

section Lines

variable {overflow : Overflow} {digits gap name behind : List Char} {format : List Directive}
  {n : TableId} {id : UInt32} {namebuf : List Char}

/-- The name behind a number. -/
theorem scan_name (isGap : ∀ c ∈ gap, isBlank c = true) (more : name ≠ [])
    (isName : ∀ c ∈ name, isSpace c = false) (stops : ∀ c ∈ behind.head?, isSpace c = true) :
    scan overflow [.space, .str, .space] (gap ++ (name ++ behind)) = ([.string name], false) := by
  have starts : ∀ c ∈ (name ++ behind).head?, isSpace c = false := by
    intro c first
    cases name with
    | nil => exact absurd rfl more
    | cons d name =>
      cases first
      exact isName _ List.mem_cons_self
  have skipped := (dropWhile_front (fun c inside => isBlank_isSpace (isGap c inside)) starts).1
  have still : (name ++ behind).dropWhile isSpace = name ++ behind :=
    (@dropWhile_front _ [] _ (fun c inside => absurd inside List.not_mem_nil) starts).1
  have word := @dropWhile_front (! isSpace ·) name behind
    (fun c inside => by simp [isName c inside]) (fun c first => by simp [stops c first])
  have something : name ++ behind ≠ [] := List.append_ne_nil_of_left_ne_nil more behind
  simp only [scan, skipped, still, something, if_false, word.2]

/-- A number in front of a blank, to a conversion of its base. -/
theorem number_digits {isDigit : Char → Bool} (b : Char) (rest : List Char)
    (hex : ∀ c, isDigit c = true → isHexDigit c = true) (more : digits ≠ [])
    (all : ∀ c ∈ digits, isDigit c = true) :
    (digits ++ b :: rest).dropWhile isSpace = digits ++ b :: rest := by
  cases digits with
  | nil => exact absurd rfl more
  | cons c digits =>
    have noSpace := (isHexDigit_other (hex c (all c List.mem_cons_self))).1
    rw [List.cons_append, List.dropWhile_cons_of_neg (by simp [noSpace])]

theorem isBlank_noHexDigit {b : Char} (blank : isBlank b = true) : isHexDigit b = false := by
  by_contra digit
  have other := (isHexDigit_other (by simpa using digit)).1
  rw [isBlank_isSpace blank] at other
  cases other

/-- The conversions of a number that is read. -/
theorem scan_hex {input rest : List Char} {value : Int} (still : input.dropWhile isSpace = input)
    (read : readNumber isHexDigit hexDigitsValue skipHexPrefix input = some (value, rest)) :
    scan overflow (.hex :: format) input =
      (.unsigned (unsignedOf overflow value) :: (scan overflow format rest).1,
        (scan overflow format rest).2) := by
  rw [scan]
  simp only [still, read]

theorem scan_dec {input rest : List Char} {value : Int} (still : input.dropWhile isSpace = input)
    (read : readNumber Char.isDigit digitsValue (fun text => text) input = some (value, rest)) :
    scan overflow (.dec :: format) input =
      (.int (intOf overflow value) :: (scan overflow format rest).1,
        (scan overflow format rest).2) := by
  rw [scan]
  simp only [still, read]

/-- A hexadecimal id. -/
theorem sscanf_hex {b : Char} {rest : List Char} (more : digits ≠ [])
    (all : ∀ c ∈ digits, isHexDigit c = true) (blank : isBlank b = true)
    (named : scan overflow [.space, .str, .space] (b :: rest) = ([.string name], false)) :
    sscanf overflow ('0' :: 'x' :: (digits ++ b :: rest)) hexFormat =
      (2, [.unsigned (unsignedOf overflow (hexDigitsValue digits)), .string name]) := by
  have stops : ∀ c ∈ (b :: rest).head?, isHexDigit c = false := fun c first => by
    cases first
    exact isBlank_noHexDigit blank
  have read := readNumber_digits hexDigitsValue (fun c digit => digit) more all stops
    (skipHexPrefix_digits all blank)
  have still := number_digits b rest (fun c digit => digit) more all
  have scanned : scan overflow hexFormat ('0' :: 'x' :: (digits ++ b :: rest)) =
      ([.unsigned (unsignedOf overflow (hexDigitsValue digits)), .string name], false) := by
    rw [hexFormat, scan, if_pos rfl, scan, if_pos rfl, scan_hex still read, named]
  rw [sscanf, scanned]
  rfl

/-- A decimal id does not begin with `0x`. -/
theorem sscanf_noHex {b : Char} (rest : List Char) (format : List Directive) (more : digits ≠ [])
    (all : ∀ c ∈ digits, c.isDigit = true) (blank : isBlank b = true) :
    sscanf overflow (digits ++ b :: rest) (.literal '0' :: .literal 'x' :: format) = (0, []) := by
  have noX : b ≠ 'x' := by
    rintro rfl
    exact absurd blank (by decide)
  have failed : scan overflow (.literal '0' :: .literal 'x' :: format) (digits ++ b :: rest) =
      ([], false) := by
    cases digits with
    | nil => exact absurd rfl more
    | cons c digits =>
      rw [List.cons_append, scan]
      split
      · cases digits with
        | nil => rw [List.nil_append, scan, if_neg noX]
        | cons d digits =>
          have digit := isDigit_isHexDigit (all d (by simp))
          have other := (isHexDigit_other digit).2.2.2.1
          rw [List.cons_append, scan, if_neg other]
      · rfl
  rw [sscanf, failed]
  rfl

/-- A decimal id. -/
theorem sscanf_dec {b : Char} {rest : List Char} (more : digits ≠ [])
    (all : ∀ c ∈ digits, c.isDigit = true) (blank : isBlank b = true)
    (named : scan overflow [.space, .str, .space] (b :: rest) = ([.string name], false)) :
    sscanf overflow (digits ++ b :: rest) decFormat =
      (2, [.int (intOf overflow (digitsValue digits)), .string name]) := by
  have stops : ∀ c ∈ (b :: rest).head?, c.isDigit = false := fun c first => by
    cases first
    by_contra digit
    have hex := isDigit_isHexDigit (by simpa using digit)
    rw [isBlank_noHexDigit blank] at hex
    cases hex
  have read := @readNumber_digits _ _ _ digitsValue (fun text => text)
    (fun c => isDigit_isHexDigit) more all stops rfl
  have still := number_digits b rest (fun c => isDigit_isHexDigit) more all
  have scanned : scan overflow decFormat (digits ++ b :: rest) =
      ([.int (intOf overflow (digitsValue digits)), .string name], false) := by
    rw [decFormat, scan_dec still read, named]
  rw [sscanf, scanned]
  rfl

/-- A number that an `unsigned int` represents is stored. -/
theorem unsignedOf_small {value : Nat} (small : value < 2 ^ 32) :
    unsignedOf overflow value = UInt32.ofNat value := by
  rw [unsignedOf, if_pos, Int.toNat_natCast]
  omega

/-- What is in `*id` behind a line with an id. -/
def TableId.read (overflow : Overflow) (id : UInt32) : TableId → UInt32
  | decimal digits =>
    if 0 < intOf overflow (digitsValue digits) then (intOf overflow (digitsValue digits)).toUInt32
    else id
  | hexadecimal digits => UInt32.ofNat (hexDigitsValue digits)

/-- The first format that stores two values is the last one that is tried. -/
theorem tryFormats_found {p : List Char} {stored : List Stored} {s : IdName}
    (found : sscanf overflow p format = (2, stored)) (formats : List (List Directive)) :
    tryFormats overflow p (format :: formats) s = (true, stored.foldl IdName.store s) := by
  rw [tryFormats, found]
  exact if_pos rfl

/-- A format that stores nothing is passed over. -/
theorem tryFormats_next {p : List Char} {s : IdName} (failed : sscanf overflow p format = (0, []))
    (formats : List (List Directive)) :
    tryFormats overflow p (format :: formats) s = tryFormats overflow p formats s := by
  rw [tryFormats, failed]
  exact if_neg (by decide)

/-- The formats on a line with an id and a name. -/
theorem tryFormats_idLine (valid : n.Valid) (someGap : gap ≠ [])
    (isGap : ∀ c ∈ gap, isBlank c = true) (more : name ≠ [])
    (isName : ∀ c ∈ name, isSpace c = false) (stops : ∀ c ∈ behind.head?, isSpace c = true) :
    ∃ s, tryFormats overflow (n.text ++ (gap ++ (name ++ behind)))
        [hexFormat, hexCommentFormat, decFormat, decCommentFormat] ⟨id, 0, namebuf⟩ = (true, s) ∧
      (if 0 < s.id2 then s.id2.toUInt32 else s.id) = n.read overflow id ∧ s.namebuf = name := by
  have named := @scan_name overflow _ _ _ isGap more isName stops
  cases gap with
  | nil => exact absurd rfl someGap
  | cons b gap =>
    have blank := isGap b List.mem_cons_self
    rw [List.cons_append] at named ⊢
    generalize gap ++ (name ++ behind) = rest at named ⊢
    cases n with
    | hexadecimal digits =>
      obtain ⟨small, someDigits, all⟩ := valid
      have stored : unsignedOf overflow (hexDigitsValue digits) =
          UInt32.ofNat (hexDigitsValue digits) := unsignedOf_small small
      have zero : ¬ (0 : Int32) < 0 := by decide
      refine ⟨⟨UInt32.ofNat (hexDigitsValue digits), 0, name⟩, ?_, if_neg zero, rfl⟩
      show tryFormats overflow ('0' :: 'x' :: (digits ++ b :: rest)) _ _ = _
      rw [tryFormats_found (sscanf_hex someDigits all blank named), stored]
      rfl
    | decimal digits =>
      obtain ⟨-, someDigits, all⟩ := valid
      refine ⟨⟨id, intOf overflow (digitsValue digits), name⟩, ?_, by dsimp only [TableId.read], rfl⟩
      show tryFormats overflow (digits ++ b :: rest) _ _ = _
      rw [hexFormat, tryFormats_next (sscanf_noHex rest _ someDigits all blank), hexCommentFormat,
        tryFormats_next (sscanf_noHex rest _ someDigits all blank),
        tryFormats_found (sscanf_dec someDigits all blank named)]
      dsimp only [List.foldl_cons, List.foldl_nil, IdName.store]

end Lines

section Reader

variable {overflow : Overflow} {id : UInt32} {namebuf line rest fp : List Char} {n : TableId}
  {name : List Char}

/-- `rt_names_fread_id_name` with steps enough for the file. -/
def nextIdName (overflow : Overflow) (fp : List Char) (id : UInt32) (namebuf : List Char) :
    Except Fault (Int × List Char × UInt32 × List Char) :=
  rtNamesFreadIdName overflow namebuf id fp.length fp

/-- More steps make no difference. -/
theorem rtNamesFreadIdName_enough {fuel : Nat} (enough : fp.length ≤ fuel) :
    rtNamesFreadIdName overflow namebuf id fuel fp = nextIdName overflow fp id namebuf := by
  induction size : fp.length using Nat.strong_induction_on generalizing fp fuel with
  | _ count ih =>
    rw [nextIdName]
    by_cases nothing : fp = []
    · subst nothing
      cases fuel <;> rfl
    · have positive := List.length_pos_of_ne_nil nothing
      have shorter := length_readPiece (by decide : 0 < 511) nothing
      obtain ⟨fuel, rfl⟩ : ∃ more, fuel = more + 1 := ⟨fuel - 1, by omega⟩
      obtain ⟨own, length⟩ : ∃ more, fp.length = more + 1 := ⟨fp.length - 1, by omega⟩
      have room : nameMaxLen - 1 = 511 := rfl
      rw [length, rtNamesFreadIdName, rtNamesFreadIdName, fgets_more _ nothing, room]
      dsimp only
      rw [ih _ (by omega) (by omega) rfl, ih _ (by omega) (by omega) rfl]

/-- The piece that the first line of a file is read in, where that is short, and a rest of the file
that reads like the one behind the line. -/
theorem readPiece_short (short : line.length < nameMaxLen) (plain : '\n' ∉ line)
    (place : fp = line ++ '\n' :: rest ∨ fp = line ∧ line ≠ [] ∧ rest = []) :
    ∃ finish fp', (finish = [] ∨ finish = ['\n']) ∧ readPiece 511 fp = (line ++ finish, fp') ∧
      fp ≠ [] ∧ nextIdName overflow fp' = nextIdName overflow rest := by
  have bound : line.length ≤ 511 := Nat.le_of_lt_succ short
  rcases place with rfl | ⟨rfl, more, rfl⟩
  · have something : line ++ '\n' :: rest ≠ [] := by simp
    by_cases room : line.length < 511
    · exact ⟨['\n'], rest, .inr rfl, readPiece_line plain room, something, rfl⟩
    · have full : 511 ≤ line.length := by omega
      refine ⟨[], '\n' :: rest, .inl rfl, ?_, something, ?_⟩
      · rw [readPiece_front plain full, List.take_of_length_le bound, List.drop_eq_nil_of_le bound,
          List.append_nil]
        rfl
      · funext id namebuf
        have blank : readPiece 511 ('\n' :: rest) = (['\n'], rest) := rfl
        have room : nameMaxLen - 1 = 511 := rfl
        rw [nextIdName, List.length_cons, rtNamesFreadIdName, fgets_more _ (List.cons_ne_nil _ _),
          room, blank]
        exact rtNamesFreadIdName_enough (Nat.le_refl _)
  · refine ⟨[], [], .inl rfl, ?_, more, rfl⟩
    rw [readPiece_last plain, List.take_of_length_le bound, List.drop_eq_nil_of_le bound,
      List.append_nil]

/-- What is behind the piece of a line in the buffer. -/
theorem buffer_end {finish : List Char} (ends : finish = [] ∨ finish = ['\n']) :
    ∃ t more, finish ++ ['\x00'] = t :: more ∧ (t = '\n' ∨ t = '\x00') := by
  rcases ends with rfl | rfl
  · exact ⟨_, _, rfl, .inr rfl⟩
  · exact ⟨_, _, rfl, .inl rfl⟩

variable {finish fp' : List Char}

/-- One step of the reader on a piece. -/
theorem nextIdName_step (something : fp ≠ []) (piece : readPiece 511 fp = (line ++ finish, fp')) :
    nextIdName overflow fp id namebuf = (do
      let p := skipBlanks (line ++ finish ++ ['\x00'])
      if endsLine (← charAt p) then nextIdName overflow fp' id namebuf
      else
        let formats := [hexFormat, hexCommentFormat, decFormat, decCommentFormat]
        let (found, s) := tryFormats overflow (cString p) formats ⟨id, 0, namebuf⟩
        if ¬ found then return (-1, fp', s.id, cString p)
        return (1, fp', if 0 < s.id2 then s.id2.toUInt32 else s.id, s.namebuf)) := by
  have positive := List.length_pos_of_ne_nil something
  have shorter := length_readPiece (by decide : 0 < 511) something
  obtain ⟨fuel, length⟩ : ∃ fuel, fp.length = fuel + 1 := ⟨fp.length - 1, by omega⟩
  have room : nameMaxLen - 1 = 511 := rfl
  rw [piece] at shorter
  have enough : fp'.length ≤ fuel := by
    have shorter : fp'.length < fp.length := shorter
    omega
  rw [nextIdName, length, rtNamesFreadIdName, fgets_more _ something, room, piece]
  dsimp only
  rw [rtNamesFreadIdName_enough enough]

/-- A blank line or a comment is passed over. -/
theorem nextIdName_empty (something : fp ≠ []) (ends : finish = [] ∨ finish = ['\n'])
    (piece : readPiece 511 fp = (line ++ finish, fp')) (empty : EmptyLine line) :
    nextIdName overflow fp id namebuf = nextIdName overflow fp' id namebuf := by
  obtain ⟨indent, comment, rfl, isIndent, ending⟩ := empty
  obtain ⟨t, more, finished, last⟩ := buffer_end ends
  have isEnd : endsLine t = true ∧ isBlank t = false := by
    rcases last with rfl | rfl <;> decide
  obtain ⟨c, behind, first, isLast⟩ : ∃ c behind, comment ++ t :: more = c :: behind ∧
      endsLine c = true ∧ isBlank c = false := by
    cases comment with
    | nil => exact ⟨t, more, rfl, isEnd⟩
    | cons c comment =>
      have hash : c = '#' := by simpa using ending
      subst hash
      exact ⟨_, _, rfl, by decide, by decide⟩
  have skipped : skipBlanks (indent ++ comment ++ finish ++ ['\x00']) = c :: behind := by
    rw [List.append_assoc, finished, List.append_assoc, first, skipBlanks]
    exact (dropWhile_front isIndent fun d head => by cases head; exact isLast.2).1
  rw [nextIdName_step something piece, skipped]
  simp only [charAt, ok_bind, isLast.1, if_true]

/-- The characters of an id are none that end a line or a string. -/
theorem TableId.text_plain (valid : n.Valid) :
    n.text ≠ [] ∧ ∀ c ∈ n.text, isBlank c = false ∧ endsLine c = false ∧ c ≠ '\x00' := by
  have digit : ∀ c, isHexDigit c = true → isBlank c = false ∧ endsLine c = false ∧ c ≠ '\x00' := by
    intro c hex
    have inWord : isWordChar c = true := by
      simp only [isHexDigit, isWordChar, decide_eq_true_eq] at hex ⊢
      tauto
    have other := isWordChar_other inWord
    refine ⟨other.1, other.2, ?_⟩
    rintro rfl
    exact absurd hex (by decide)
  cases n with
  | decimal digits =>
    obtain ⟨-, more, all⟩ := valid
    exact ⟨more, fun c inside => digit c (isDigit_isHexDigit (all c inside))⟩
  | hexadecimal digits =>
    obtain ⟨-, -, all⟩ := valid
    refine ⟨List.cons_ne_nil _ _, fun c inside => ?_⟩
    rcases List.mem_cons.mp inside with rfl | inside
    · decide
    · rcases List.mem_cons.mp inside with rfl | inside
      · decide
      · exact digit c (all c inside)

/-- An id and a name are read. -/
theorem nextIdName_idLine (something : fp ≠ []) (ends : finish = [] ∨ finish = ['\n'])
    (piece : readPiece 511 fp = (line ++ finish, fp')) (own : IdLine line n name) :
    nextIdName overflow fp id namebuf = .ok (1, fp', n.read overflow id, name) := by
  obtain ⟨indent, gap, behind, rfl, isIndent, valid, someGap, isGap, someName, isName, ending⟩ := own
  obtain ⟨t, more, finished, last⟩ := buffer_end ends
  obtain ⟨someText, isText⟩ := TableId.text_plain valid
  have split : indent ++ (n.text ++ (gap ++ (name ++ behind))) ++ finish ++ ['\x00'] =
      indent ++ (n.text ++ (gap ++ (name ++ (behind ++ t :: more)))) := by
    rw [List.append_assoc, finished]
    simp only [List.append_assoc]
  obtain ⟨c, text, first, noBlank, noEnd⟩ : ∃ c text, n.text = c :: text ∧
      isBlank c = false ∧ endsLine c = false := by
    cases read : n.text with
    | nil => exact absurd read someText
    | cons c text =>
      obtain ⟨noBlank, noEnd, -⟩ := isText c (by rw [read]; exact List.mem_cons_self)
      exact ⟨c, text, rfl, noBlank, noEnd⟩
  have skipped : skipBlanks (indent ++ (n.text ++ (gap ++ (name ++ behind))) ++ finish ++ ['\x00']) =
      n.text ++ (gap ++ (name ++ (behind ++ t :: more))) := by
    rw [split, skipBlanks]
    refine (dropWhile_front isIndent fun d head => ?_).1
    rw [first] at head
    cases head
    exact noBlank
  have string : cString (n.text ++ (gap ++ (name ++ (behind ++ t :: more)))) =
      n.text ++ (gap ++ (name ++ cString (behind ++ t :: more))) := by
    rw [cString_append fun inside => (isText _ inside).2.2 rfl,
      cString_append (noTerminator (by decide) isGap),
      cString_append fun inside => (isName _ inside).2 rfl]
  have stops : ∀ d ∈ (cString (behind ++ t :: more)).head?, isSpace d = true := by
    have starts : (∃ b rest, behind ++ t :: more = b :: rest ∧ isSpace b = true ∧ b ≠ '\x00') ∨
        ∃ rest, behind ++ t :: more = '\x00' :: rest := by
      cases behind with
      | nil =>
        rcases last with rfl | rfl
        · exact .inl ⟨_, _, rfl, by decide, by decide⟩
        · exact .inr ⟨_, rfl⟩
      | cons b behind =>
        have blank : isBlank b = true := by
          rcases ending with blanks | ⟨blanks, comment, same, someBlanks, isBlanks⟩
          · exact blanks b List.mem_cons_self
          · cases blanks with
            | nil => exact absurd rfl someBlanks
            | cons d blanks =>
              obtain ⟨rfl, -⟩ := List.cons.inj same
              exact isBlanks b List.mem_cons_self
        refine .inl ⟨b, behind ++ t :: more, rfl, isBlank_isSpace blank, ?_⟩
        rintro rfl
        exact absurd blank (by decide)
    intro d head
    rcases starts with ⟨b, rest, same, space, plain⟩ | ⟨rest, same⟩
    · rw [same, cString, List.takeWhile_cons_of_pos (by simpa using plain)] at head
      cases head
      exact space
    · rw [same, cString, List.takeWhile_cons_of_neg (by simp)] at head
      cases head
  obtain ⟨s, tried, idRead, nameRead⟩ := @tryFormats_idLine overflow _ _ _ _ id namebuf valid
    someGap isGap someName (fun c inside => (isName c inside).1) stops
  have here : charAt (n.text ++ (gap ++ (name ++ (behind ++ t :: more)))) = .ok c := by
    rw [first]
    rfl
  rw [nextIdName_step something piece, skipped]
  simp only [here, ok_bind, noEnd, Bool.false_eq_true, if_false, string, tried, not_true_eq_false]
  rw [idRead, nameRead]
  rfl

end Reader

section Files

variable {overflow : Overflow} {content namebuf : List Char} {id : UInt32}
  {items : List (Option (TableId × List Char))} {entries : List RtNamesEntry}

/-- The entries that are made of what a file says, with what is in `id` before. -/
def readEntries (overflow : Overflow) : UInt32 → List (Option (TableId × List Char)) →
    List RtNamesEntry
  | _, [] => []
  | id, none :: items => readEntries overflow id items
  | id, some (n, name) :: items =>
    ⟨n.read overflow id, name⟩ :: readEntries overflow (n.read overflow id) items

/-- Where the next line is read alike, so is the file. -/
theorem rtNamesReadLoop_congr {fp fp' : List Char}
    (alike : nextIdName overflow fp = nextIdName overflow fp') (fuel : Nat) :
    rtNamesReadLoop overflow fuel fp id namebuf entries =
      rtNamesReadLoop overflow fuel fp' id namebuf entries := by
  cases fuel with
  | zero => rfl
  | succ fuel =>
    have same := congrFun (congrFun alike id) namebuf
    rw [nextIdName, nextIdName] at same
    rw [rtNamesReadLoop, rtNamesReadLoop, same]

/-- A line at the front of a file, and the rest of it. -/
theorem rtNamesReadLoop_line {fuel : Nat} {line rest fp : List Char}
    {item : Option (TableId × List Char)} (short : line.length < nameMaxLen) (plain : '\n' ∉ line)
    (place : fp = line ++ '\n' :: rest ∨ fp = line ∧ line ≠ [] ∧ rest = [])
    (means : Means line item) (enough : rest.length < fuel)
    (later : ∀ {fuel} id namebuf entries, rest.length < fuel →
      rtNamesReadLoop overflow fuel rest id namebuf entries =
        .ok (0, entries ++ readEntries overflow id items)) :
    rtNamesReadLoop overflow (fuel + 1) fp id namebuf entries =
      .ok (0, entries ++ readEntries overflow id (item :: items)) := by
  obtain ⟨finish, fp', ends, piece, something, alike⟩ :=
    @readPiece_short overflow _ _ _ short plain place
  cases item with
  | none =>
    have passed : nextIdName overflow fp = nextIdName overflow rest := by
      rw [← alike]
      funext id namebuf
      exact nextIdName_empty something ends piece means
    rw [rtNamesReadLoop_congr passed, readEntries]
    exact later id namebuf entries (Nat.lt_succ_of_lt enough)
  | some item =>
    obtain ⟨n, name⟩ := item
    have read := @nextIdName_idLine overflow id namebuf _ _ _ _ _ _ something ends piece means
    rw [nextIdName] at read
    rw [rtNamesReadLoop, read, ok_bind]
    show rtNamesReadLoop overflow fuel fp' _ name _ = _
    rw [rtNamesReadLoop_congr alike, later _ name _ enough, readEntries, rtNamesAddEntry,
      List.append_assoc]
    rfl

/-- The entries that reading a file appends. -/
theorem rtNamesReadLoop_spec (file : NamesFile content items) {fuel : Nat}
    (enough : content.length < fuel) (id : UInt32) (namebuf : List Char)
    (entries : List RtNamesEntry) :
    rtNamesReadLoop overflow fuel content id namebuf entries =
      .ok (0, entries ++ readEntries overflow id items) := by
  obtain ⟨short, means⟩ := file
  obtain ⟨fuel, rfl⟩ : ∃ more, fuel = more + 1 := ⟨fuel - 1, by omega⟩
  induction content using lines_induction generalizing items fuel id namebuf entries with
  | empty =>
    rw [lines_nil] at means
    cases means
    rw [readEntries, List.append_nil]
    rfl
  | last line more plain =>
    rw [lines_last more plain] at short means
    cases means with
    | cons own means =>
      cases means
      have positive := List.length_pos_of_ne_nil more
      refine rtNamesReadLoop_line (short line List.mem_cons_self) plain (.inr ⟨rfl, more, rfl⟩) own
        (by rw [List.length_nil]; omega) fun {fuel} id namebuf entries enough => ?_
      obtain ⟨fuel, rfl⟩ : ∃ more, fuel = more + 1 := ⟨fuel - 1, by omega⟩
      rw [readEntries, List.append_nil]
      rfl
  | next line rest plain ih =>
    rw [lines_line plain] at short means
    cases means with
    | cons own means =>
      rw [List.length_append, List.length_cons] at enough
      refine rtNamesReadLoop_line (short line List.mem_cons_self) plain (.inl rfl) own
        (by omega) fun {fuel} id namebuf entries enough => ?_
      obtain ⟨fuel, rfl⟩ : ∃ more, fuel = more + 1 := ⟨fuel - 1, by omega⟩
      exact ih id namebuf entries (fun line inside => short line (List.mem_cons_of_mem _ inside))
        means fuel enough

end Files

section Ids

variable {overflow : Overflow} {id : UInt32} {n : TableId} {digits : List Char}

theorem ofNat_inj {a b : Nat} (small : a < 2 ^ 32) (small' : b < 2 ^ 32)
    (same : UInt32.ofNat a = UInt32.ofNat b) : a = b := by
  have values := congrArg UInt32.toNat same
  rwa [UInt32.toNat_ofNat_of_lt' small, UInt32.toNat_ofNat_of_lt' small'] at values

/-- What `%d` stores for a number of its range. -/
theorem intOf_small (small : digitsValue digits < 2 ^ 31) :
    intOf overflow (digitsValue digits) = Int32.ofNat (digitsValue digits) ∧
      (0 < Int32.ofNat (digitsValue digits) ↔ 0 < digitsValue digits) := by
  generalize digitsValue digits = value at small
  have inRange : -2 ^ 31 ≤ (value : Int) ∧ (value : Int) < 2 ^ 31 := by omega
  refine ⟨?_, ?_⟩
  · unfold intOf
    rw [if_pos inRange, Int32.ofInt_eq_ofNat]
  · rw [Int32.lt_iff_toInt_lt, Int32.toInt_zero, ← Int32.ofInt_eq_ofNat,
      Int32.toInt_ofInt_of_le inRange.1 inRange.2]
    omega

/-- A positive number in the range of `%d` is read. -/
theorem read_positive (positive : 0 < digitsValue digits) (small : digitsValue digits < 2 ^ 31) :
    (TableId.decimal digits).read overflow id = UInt32.ofNat (digitsValue digits) := by
  obtain ⟨stored, sign⟩ := @intOf_small overflow digits small
  rw [TableId.read, stored, if_pos (sign.mpr positive), Int32.toUInt32_ofNat']

/-- Zero is not: `*id` stays. -/
theorem read_zero (zero : digitsValue digits = 0) :
    (TableId.decimal digits).read overflow id = id := by
  obtain ⟨stored, sign⟩ := @intOf_small overflow digits (by rw [zero]; decide)
  have none : ¬ 0 < digitsValue digits := by omega
  rw [TableId.read, stored, if_neg fun positive => none (sign.mp positive)]

/-- Where `sscanf` stores 1 for a number that is too large, 1 is read. -/
theorem read_large (large : 2 ^ 31 ≤ digitsValue digits) :
    (TableId.decimal digits).read ⟨fun _ => 0, fun _ => 1⟩ id = 1 := by
  have stored : intOf ⟨fun _ => 0, fun _ => 1⟩ (digitsValue digits) = 1 := by
    unfold intOf
    rw [if_neg]
    omega
  have positive : (0 : Int32) < 1 := by decide
  rw [TableId.read, stored, if_pos positive]
  rfl

/-- Some id is the one before. -/
theorem somewhere (previous : Option Nat) : ∃ id : UInt32, ∀ v ∈ previous, id = UInt32.ofNat v := by
  cases previous with
  | none => exact ⟨0, fun v inside => by cases inside⟩
  | some v => exact ⟨UInt32.ofNat v, fun u inside => by cases inside; rfl⟩

/-- A number is read, whatever came before, exactly when it fits. -/
theorem read_iff_fits (small : n.value < 2 ^ 32) {previous : Option Nat}
    (smallPrevious : ∀ v ∈ previous, v < 2 ^ 32) :
    (∀ (overflow : Overflow) (id : UInt32), (∀ v ∈ previous, id = UInt32.ofNat v) →
      n.read overflow id = UInt32.ofNat n.value) ↔ n.Fits previous := by
  cases n with
  | hexadecimal digits => exact iff_of_true (fun _ _ _ => rfl) trivial
  | decimal digits =>
    constructor
    · intro reads
      rcases Nat.lt_or_ge (digitsValue digits) (2 ^ 31) with inRange | large
      · rcases Nat.eq_zero_or_pos (digitsValue digits) with zero | positive
        · refine .inr ⟨zero, ?_⟩
          cases previous with
          | none =>
            have read := reads ⟨fun _ => 0, fun _ => 0⟩ 1 fun v inside => by cases inside
            rw [read_zero zero] at read
            have other := ofNat_inj (a := 1) (by decide) small read
            rw [TableId.value, zero] at other
            cases other
          | some v =>
            have read := reads ⟨fun _ => 0, fun _ => 0⟩ (UInt32.ofNat v) fun u inside => by
              cases inside; rfl
            rw [read_zero zero] at read
            have same := ofNat_inj (smallPrevious v rfl) small read
            rw [same, TableId.value, zero]
        · exact .inl ⟨positive, inRange⟩
      · obtain ⟨id, allowed⟩ := somewhere previous
        have read := reads ⟨fun _ => 0, fun _ => 1⟩ id allowed
        rw [read_large large] at read
        have same : 1 = digitsValue digits := ofNat_inj (a := 1) (by decide) small read
        omega
    · rintro (⟨positive, inRange⟩ | ⟨zero, rfl⟩) overflow id allowed
      · exact read_positive positive inRange
      · rw [read_zero zero, TableId.value, zero]
        exact allowed 0 rfl

/-- The entries made are those that the file says exactly when every id fits. -/
theorem readEntries_iff {items : List (Option (TableId × List Char))} {previous : Option Nat}
    (small : ∀ item ∈ items, ∀ entry ∈ item, entry.1.value < 2 ^ 32)
    (smallPrevious : ∀ v ∈ previous, v < 2 ^ 32) :
    (∀ (overflow : Overflow) (id : UInt32), (∀ v ∈ previous, id = UInt32.ofNat v) →
      readEntries overflow id items = saidEntries items) ↔ IdsFit previous items := by
  induction items generalizing previous with
  | nil => exact iff_of_true (fun _ _ _ => rfl) trivial
  | cons item items ih =>
    have later : ∀ item ∈ items, ∀ entry ∈ item, entry.1.value < 2 ^ 32 := fun item inside =>
      small item (List.mem_cons_of_mem _ inside)
    cases item with
    | none => exact ih later smallPrevious
    | some entry =>
      obtain ⟨n, name⟩ := entry
      have own : n.value < 2 ^ 32 := small _ List.mem_cons_self _ rfl
      have next := @ih (some n.value) later fun v inside => by cases inside; exact own
      rw [IdsFit, ← read_iff_fits own smallPrevious, ← next]
      have parts : ∀ (overflow : Overflow) (id : UInt32),
          (readEntries overflow id (some (n, name) :: items) = saidEntries (some (n, name) :: items) ↔
            n.read overflow id = UInt32.ofNat n.value ∧
              readEntries overflow (n.read overflow id) items = saidEntries items) := by
        intro overflow id
        show _ :: _ = _ :: _ ↔ _
        rw [List.cons.injEq, RtNamesEntry.mk.injEq]
        simp only [and_true]
        rfl
      constructor
      · intro same
        refine ⟨fun overflow id allowed => ((parts overflow id).mp (same overflow id allowed)).1,
          fun overflow id allowed => ?_⟩
        obtain ⟨before, allowedBefore⟩ := somewhere previous
        obtain ⟨read, rest⟩ := (parts overflow before).mp (same overflow before allowedBefore)
        rwa [read, ← allowed n.value rfl] at rest
      · rintro ⟨reads, rest⟩ overflow id allowed
        refine (parts overflow id).mpr ⟨reads overflow id allowed, rest _ _ fun v inside => ?_⟩
        cases inside
        exact reads overflow id allowed

end Ids

/-- A line that has an id has one of 32 bits. -/
theorem NamesFile.small {content : List Char} {items : List (Option (TableId × List Char))}
    (file : NamesFile content items) : ∀ item ∈ items, ∀ entry ∈ item, entry.1.value < 2 ^ 32 := by
  obtain ⟨-, means⟩ := file
  generalize lines content = texts at means
  induction means with
  | nil => exact fun item inside => absurd inside List.not_mem_nil
  | cons own _ ih =>
    intro item inside entry same
    rcases List.mem_cons.mp inside with rfl | inside
    · cases same
      obtain ⟨indent, gap, behind, -, -, valid, -⟩ := own
      exact valid.1
    · exact ih item inside entry same

/-- A file of names is read as it says exactly when every decimal id is positive and in the range
of `%d`, or is 0 behind a line with the id 0; a lookup finds the first entry of a name. -/
theorem names_read (content : List Char) (items : List (Option (TableId × List Char)))
    (file : NamesFile content items) :
    (ReadsNames content items ↔ IdsFit none items) ∧
    ∀ (name : List Char) (entries : List RtNamesEntry), rtNamesLookup name entries =
      ((entries.find? fun entry => entry.name = name).map RtNamesEntry.id).getD 0 := by
  constructor
  · rw [← readEntries_iff file.small fun v inside => by cases inside]
    constructor
    · intro reads overflow id _
      have read := reads overflow id []
      rw [rtNamesReadFile, rtNamesReadLoop_spec file (Nat.lt_succ_self _)] at read
      simpa using read
    · intro same overflow id entries
      rw [rtNamesReadFile, rtNamesReadLoop_spec file (Nat.lt_succ_self _),
        same overflow id fun v inside => by cases inside]
  · intro name entries
    induction entries with
    | nil => rfl
    | cons entry entries ih =>
      rw [rtNamesLookup, List.find?_cons]
      split
      · next same => simp [same]
      · next other => rw [ih]; simp [other]

/-- An id, a blank and a name, and what may stand behind them. -/
theorem idLine_blank {n : TableId} {name behind : List Char} (valid : n.Valid)
    (someName : name ≠ []) (isName : ∀ c ∈ name, isSpace c = false ∧ c ≠ '\x00')
    (ends : (∀ c ∈ behind, isBlank c = true) ∨ ∃ blanks comment, behind = blanks ++ '#' :: comment ∧
      blanks ≠ [] ∧ ∀ c ∈ blanks, isBlank c = true) :
    IdLine (n.text ++ ' ' :: (name ++ behind)) n name := by
  refine ⟨[], [' '], behind, rfl, ?_, valid, List.cons_ne_nil _ _, ?_, someName, isName, ends⟩
  · exact fun c inside => absurd inside List.not_mem_nil
  · exact fun c inside => by rw [List.mem_singleton.mp inside]; rfl

/-- A comment, and two tables, one with a hexadecimal id and one with a comment behind it. -/
def wanFile : List Char :=
  ['#', ' ', 't', 'a', 'b', 'l', 'e', 's', '\n', '0', 'x', '1', '0', ' ', 'l', 'a', 'n', '\n',
    '2', ' ', 'w', 'a', 'n', ' ', '#', ' ', 'u', 'p', '\n']

/-- What its lines say. -/
def wanItems : List (Option (TableId × List Char)) :=
  [none, some (.hexadecimal ['1', '0'], ['l', 'a', 'n']), some (.decimal ['2'], ['w', 'a', 'n'])]

/-- Its tables are read behind those that are there from the start, and each is found. -/
theorem names_read_wan :
    ReadsNames wanFile wanItems ∧
    rtNamesLookup ['l', 'a', 'n'] (rtNamesRoot ++ saidEntries wanItems) = 16 ∧
    rtNamesLookup ['w', 'a', 'n'] (rtNamesRoot ++ saidEntries wanItems) = 2 := by
  have file : NamesFile wanFile wanItems := by
    have split : lines wanFile = [['#', ' ', 't', 'a', 'b', 'l', 'e', 's'],
        ['0', 'x', '1', '0', ' ', 'l', 'a', 'n'],
        ['2', ' ', 'w', 'a', 'n', ' ', '#', ' ', 'u', 'p']] := by decide
    rw [NamesFile, split]
    refine ⟨by decide, .cons ?_ (.cons ?_ (.cons ?_ .nil))⟩
    · exact ⟨[], _, rfl, by simp, .inr rfl⟩
    · refine @idLine_blank (.hexadecimal ['1', '0']) ['l', 'a', 'n'] [] ?_ (by decide)
        (by simp [isSpace]) (.inl (by simp))
      exact ⟨by decide, by decide, by simp [isHexDigit]⟩
    · refine @idLine_blank (.decimal ['2']) ['w', 'a', 'n'] [' ', '#', ' ', 'u', 'p'] ?_
        (by decide) (by simp [isSpace]) (.inr ⟨[' '], _, rfl, by decide, by simp [isBlank]⟩)
      exact ⟨by decide, by decide, by simp⟩
  obtain ⟨reads, lookup⟩ := names_read wanFile wanItems file
  refine ⟨reads.mpr ⟨trivial, .inl ⟨by decide, by decide⟩, trivial⟩, ?_, ?_⟩
  · rw [lookup]
    decide
  · rw [lookup]
    decide

/-- The last two lines of the usual file of tables. -/
def unspecFile : List Char :=
  ['2', '5', '3', ' ', 'd', 'e', 'f', 'a', 'u', 'l', 't', '\n',
    '0', ' ', 'u', 'n', 's', 'p', 'e', 'c', '\n']

/-- What they say. -/
def unspecItems : List (Option (TableId × List Char)) :=
  [some (.decimal ['2', '5', '3'], ['d', 'e', 'f', 'a', 'u', 'l', 't']),
    some (.decimal ['0'], ['u', 'n', 's', 'p', 'e', 'c'])]

theorem unspecFile_names : NamesFile unspecFile unspecItems := by
  have split : lines unspecFile = [['2', '5', '3', ' ', 'd', 'e', 'f', 'a', 'u', 'l', 't'],
    ['0', ' ', 'u', 'n', 's', 'p', 'e', 'c']] := by decide
  rw [NamesFile, split]
  refine ⟨by decide, .cons ?_ (.cons ?_ .nil)⟩
  · exact @idLine_blank (.decimal ['2', '5', '3']) ['d', 'e', 'f', 'a', 'u', 'l', 't'] []
      ⟨by decide, by decide, by simp⟩ (by decide) (by simp [isSpace]) (.inl (by simp))
  · exact @idLine_blank (.decimal ['0']) ['u', 'n', 's', 'p', 'e', 'c'] []
      ⟨by decide, by decide, by simp⟩ (by decide) (by simp [isSpace]) (.inl (by simp))

/-- The table 0 gets the id of the table before it. -/
theorem names_read_unspec :
    ¬ ∀ content items, NamesFile content items → ReadsNames content items := by
  intro reads
  have read := reads _ _ unspecFile_names ⟨fun _ => 0, fun _ => 0⟩ 0 []
  rw [rtNamesReadFile, rtNamesReadLoop_spec unspecFile_names (Nat.lt_succ_self _)] at read
  have same : readEntries ⟨fun _ => 0, fun _ => 0⟩ 0 unspecItems = saidEntries unspecItems :=
    (Prod.ext_iff.mp (Except.ok.inj read)).2
  have ids := congrArg (List.map RtNamesEntry.id) same
  exact absurd ids (by decide)

end FlowerRoute
