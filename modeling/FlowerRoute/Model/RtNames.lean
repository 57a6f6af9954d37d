import FlowerRoute.Model.PrefixFile

/-!
# Names of routing tables

`rt_names.c`: the entries of a file of table names, and `rt_names_lookup`. `sscanf` interprets
its format, as far as the formats of the reader go; where it leaves undefined what it stores, that
is a parameter.
-/

namespace FlowerRoute

open Outcome LineInput

section Sscanf

/-- A directive of a format. -/
inductive Directive
  | literal (c : Char)
  | space
  /-- `%x` into an `unsigned int`. -/
  | hex
  /-- `%d` into an `int`. -/
  | dec
  /-- `%s`. -/
  | str
  deriving DecidableEq, Repr

/-- What a conversion stores. -/
inductive Stored
  | unsigned (value : UInt32)
  | int (value : Int32)
  | string (value : List Char)
  deriving DecidableEq, Repr

/-- What a conversion stores for a number that its object cannot represent. -/
structure Overflow where
  unsigned : Int → UInt32
  int : Int → Int32

/-- A hexadecimal digit. -/
def isHexDigit (c : Char) : Bool :=
  ('0' ≤ c ∧ c ≤ '9') ∨ ('a' ≤ c ∧ c ≤ 'f') ∨ ('A' ≤ c ∧ c ≤ 'F')

/-- The value of a hexadecimal digit. -/
def hexDigitValue (c : Char) : Nat :=
  if c ≤ '9' then c.toNat - '0'.toNat
  else if c ≤ 'F' then c.toNat - 'A'.toNat + 10
  else c.toNat - 'a'.toNat + 10

/-- The number that hexadecimal digits stand for. -/
def hexDigitsValue (digits : List Char) : Nat :=
  digits.foldl (fun value c => 16 * value + hexDigitValue c) 0

/-- The optional `0x` of a hexadecimal number. -/
def skipHexPrefix : List Char → List Char
  | '0' :: 'x' :: number => number
  | '0' :: 'X' :: number => number
  | number => number

/-- The digits of a number with its sign, and the text after them; none if there are no digits. -/
def readNumber (isDigit : Char → Bool) (value : List Char → Nat) (skipBase : List Char → List Char)
    (text : List Char) : Option (Int × List Char) :=
  let (negative, number) := readSign text
  let number := skipBase number
  let digits := number.takeWhile isDigit
  if digits = [] then none
  else some (if negative then -(value digits : Int) else value digits, number.dropWhile isDigit)

/-- What the conversion `%x` stores for a number. -/
def unsignedOf (overflow : Overflow) (value : Int) : UInt32 :=
  if 0 ≤ value ∧ value < 2 ^ 32 then UInt32.ofNat value.toNat else overflow.unsigned value

/-- What the conversion `%d` stores for a number. -/
def intOf (overflow : Overflow) (value : Int) : Int32 :=
  if -2 ^ 31 ≤ value ∧ value < 2 ^ 31 then Int32.ofInt value else overflow.int value

/-- Directives on an input: what the conversions store, and whether the input ended too early. -/
def scan (overflow : Overflow) : List Directive → List Char → List Stored × Bool
  | [], _ => ([], false)
  | .literal c :: format, input =>
    match input with
    | [] => ([], true)
    | d :: input => if d = c then scan overflow format input else ([], false)
  | .space :: format, input => scan overflow format (input.dropWhile isSpace)
  | .hex :: format, input =>
    let input := input.dropWhile isSpace
    match readNumber isHexDigit hexDigitsValue skipHexPrefix input with
    | none => ([], input = [])
    | some (value, input) =>
      let (stored, ended) := scan overflow format input
      (.unsigned (unsignedOf overflow value) :: stored, ended)
  | .dec :: format, input =>
    let input := input.dropWhile isSpace
    match readNumber Char.isDigit digitsValue (fun text => text) input with
    | none => ([], input = [])
    | some (value, input) =>
      let (stored, ended) := scan overflow format input
      (.int (intOf overflow value) :: stored, ended)
  | .str :: format, input =>
    let input := input.dropWhile isSpace
    if input = [] then ([], true)
    else
      let (stored, ended) := scan overflow format (input.dropWhile (! isSpace ·))
      (.string (input.takeWhile (! isSpace ·)) :: stored, ended)

/-- `sscanf`: its result, and what it stores. -/
def sscanf (overflow : Overflow) (input : List Char) (format : List Directive) :
    Int × List Stored :=
  let (stored, ended) := scan overflow format input
  (if stored = [] ∧ ended then -1 else stored.length, stored)

end Sscanf

/-- `NAME_MAX_LEN`. -/
def nameMaxLen : Nat := 512

/-- `struct rt_names_entry`. -/
structure RtNamesEntry where
  id : UInt32
  name : List Char
  deriving DecidableEq, Repr

/-- The entries from `rt_names_root` on before any file is read. -/
def rtNamesRoot : List RtNamesEntry :=
  [⟨253, "default".toList⟩, ⟨254, "main".toList⟩, ⟨255, "local".toList⟩]

/-- `rt_names_add_entry`. -/
def rtNamesAddEntry (id : UInt32) (name : List Char) (entries : List RtNamesEntry) :
    List RtNamesEntry := entries ++ [⟨id, name⟩]

/-- `rt_names_lookup`. -/
def rtNamesLookup (name : List Char) : List RtNamesEntry → UInt32
  | [] => 0
  | entry :: entries => if entry.name = name then entry.id else rtNamesLookup name entries

/-- The variables that the formats store into: `*id`, `id2` and `namebuf`. -/
structure IdName where
  id : UInt32
  id2 : Int32
  namebuf : List Char
  deriving DecidableEq, Repr

/-- A conversion stores into its variable: `%x` into `*id`, `%d` into `id2`. -/
def IdName.store (s : IdName) : Stored → IdName
  | .unsigned value => { s with id := value }
  | .int value => { s with id2 := value }
  | .string value => { s with namebuf := value }

/-- `"0x%x %s\n"`. -/
def hexFormat : List Directive := [.literal '0', .literal 'x', .hex, .space, .str, .space]

/-- `"0x%x %s #"`. -/
def hexCommentFormat : List Directive :=
  [.literal '0', .literal 'x', .hex, .space, .str, .space, .literal '#']

/-- `"%d %s\n"`. -/
def decFormat : List Directive := [.dec, .space, .str, .space]

/-- `"%d %s #"`. -/
def decCommentFormat : List Directive := [.dec, .space, .str, .space, .literal '#']

/-- The formats that are tried on a line, one after the other until one stores two values: whether
one did, and the variables. -/
def tryFormats (overflow : Overflow) (p : List Char) : List (List Directive) → IdName → Bool × IdName
  | [], s => (false, s)
  | format :: formats, s =>
    let (ret, stored) := sscanf overflow p format
    let s := stored.foldl IdName.store s
    if ret = 2 then (true, s) else tryFormats overflow p formats s

/-- `rt_names_fread_id_name`: its result, the rest of the file, `*id` and `namebuf`. -/
def rtNamesFreadIdName (overflow : Overflow) (namebuf : List Char) (id : UInt32) :
    Nat → List Char → Except Fault (Int × List Char × UInt32 × List Char)
  | fuel, fp =>
    match fgets nameMaxLen fp with
    | none => .ok (0, fp, id, namebuf)
    | some (buf, fp) =>
      match fuel with
      | 0 => .error .outOfFuel
      | fuel + 1 => do
        let p := skipBlanks buf
        if endsLine (← charAt p) then rtNamesFreadIdName overflow namebuf id fuel fp
        else
          let formats := [hexFormat, hexCommentFormat, decFormat, decCommentFormat]
          let (found, s) := tryFormats overflow (cString p) formats ⟨id, 0, namebuf⟩
          if ¬ found then return (-1, fp, s.id, cString p)
          return (1, fp, if 0 < s.id2 then s.id2.toUInt32 else s.id, s.namebuf)

/-- The loop of `rt_names_read_file`. -/
def rtNamesReadLoop (overflow : Overflow) : Nat → List Char → UInt32 → List Char →
    List RtNamesEntry → Except Fault (Int × List RtNamesEntry)
  | 0, _, _, _, _ => .error .outOfFuel
  | fuel + 1, fp, id, namebuf, entries => do
    let (ret, fp, id, namebuf) ← rtNamesFreadIdName overflow namebuf id fp.length fp
    if ret = 0 then return (0, entries)
    if ret = -1 then return (minusEinval, entries)
    rtNamesReadLoop overflow fuel fp id namebuf (rtNamesAddEntry id namebuf entries)

/-- `rt_names_read_file` on the contents of the file, or the `errno` of `fopen`; its variable `id`
begins as it happens to be. -/
def rtNamesReadFile (overflow : Overflow) (id : UInt32) (file : Except Int (List Char))
    (entries : List RtNamesEntry) : Except Fault (Int × List RtNamesEntry) :=
  match file with
  | .error errno => .ok (-errno, entries)
  | .ok fp => rtNamesReadLoop overflow (fp.length + 1) fp id [] entries

end FlowerRoute
