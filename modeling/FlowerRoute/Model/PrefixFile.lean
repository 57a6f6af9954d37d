import FlowerRoute.Lib.LineInput
import FlowerRoute.Model.Onload

/-!
# Files of prefixes

`onload.c`: the scanner of a file of prefixes. A pointer into the buffer is what the buffer holds
from there on, up to and with the terminator. What the scanner calls for a word is a parameter, so
that its calls are seen; the daemon passes `onload_add_prefix`.
-/

namespace FlowerRoute

open Outcome LineInput

/-- `LINE_MAX_LEN`. -/
def lineMaxLen : Nat := 512

/-- `*p`. -/
def charAt (p : List Char) : Except Fault Char :=
  match p with
  | [] => .error .outOfBounds
  | c :: _ => .ok c

/-- A write of a terminator through `p`, a pointer into the string from `begin` on. -/
def terminateAt (begin p : List Char) : List Char := begin.set (begin.length - p.length) '\x00'

/-- The string at a pointer, up to its terminator. -/
def cString (p : List Char) : List Char := p.takeWhile (· ≠ '\x00')

/-- A blank or a tab. -/
def isBlank (c : Char) : Bool := c = ' ' ∨ c = '\t'

/-- The loops over blanks. -/
def skipBlanks (p : List Char) : List Char := p.dropWhile isBlank

/-- Whether a line may end here. -/
def endsLine (c : Char) : Bool := c = '#' ∨ c = '\n' ∨ c = '\x00'

/-- One round of the loop over the classes of characters. -/
def skipClasses (p : List Char) : List Char :=
  let p := p.dropWhile fun c => '0' ≤ c ∧ c ≤ '9'
  let p := p.dropWhile fun c => 'a' ≤ c ∧ c ≤ 'f'
  let p := p.dropWhile fun c => 'A' ≤ c ∧ c ≤ 'F'
  p.dropWhile fun c => c = '.' ∨ c = ':' ∨ c = '/'

/-- The loop over the classes of characters, until a round does not move `p`. -/
def skipWord : Nat → List Char → Except Fault (List Char)
  | 0, _ => .error .outOfFuel
  | fuel + 1, pWasHere =>
    let p := skipClasses pWasHere
    if p.length < pWasHere.length then skipWord fuel p else .ok p

/-- The body of the loop of `onload_fread_prefix` up to its call of `onload_add_prefix`: the string
for the call, or none for `continue`. -/
def onloadScan (buf : List Char) : Except Fault (Option (List Char)) := do
  let p := skipBlanks buf
  if endsLine (← charAt p) then return none
  let begin := p
  let fin ← skipWord (p.length + 1) p
  let p := skipBlanks fin
  if ¬ endsLine (← charAt p) then return none
  let line := if (← charAt p) = '\n' then terminateAt begin p else begin
  return some (cString (terminateAt line fin))

section Files

variable {σ : Type} (onloadAddPrefix : List Char → σ → Except Fault (Int × σ))

/-- `onload_fread_prefix`. -/
def onloadFreadPrefix : Nat → List Char → σ → Except Fault (Int × σ)
  | fuel, fp, s =>
    match fgets lineMaxLen fp with
    | none => .ok (0, s)
    | some (buf, fp) =>
      match fuel with
      | 0 => .error .outOfFuel
      | fuel + 1 => do
        match ← onloadScan buf with
        | none => onloadFreadPrefix fuel fp s
        | some word =>
          let (ret, s) ← onloadAddPrefix word s
          if ret ≠ 0 then return (ret, s)
          onloadFreadPrefix fuel fp s

/-- `onload_load_prefixes` on the contents of the file, or the `errno` of `fopen`. Its loop ends
with the first call of `onload_fread_prefix`, whatever it returns. -/
def onloadLoadPrefixes (file : Except Int (List Char)) (s : σ) : Except Fault (Int × σ) :=
  match file with
  | .error errno => .ok (-errno, s)
  | .ok fp => onloadFreadPrefix onloadAddPrefix fp.length fp s

end Files

end FlowerRoute
