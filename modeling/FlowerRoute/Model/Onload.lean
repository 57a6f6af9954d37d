import FlowerRoute.Lib.Heap
import FlowerRoute.Lib.Outcome
import FlowerRoute.Lib.Tlv
import FlowerRoute.Model.Address

/-!
# Static prefixes

`onload.c`: the lists of static prefixes and `onload_add_prefix`, which parses a prefix and
stores it at the tail of a named list. A string is the list of its characters before the
terminating zero, and memory is the list of its bytes, so that what `inet_pton` writes where is
part of the model. `inet_pton` is a parameter, with what its manual says of its literals.
-/

namespace FlowerRoute

open Outcome Tlv

/-- `inet_pton`: the network order bytes of a literal, or none where it returns 0. -/
structure InetPton where
  parse : UInt8 → List Char → Option Bytes
  /-- An IPv4 address has four bytes. -/
  length_v4 : ∀ {literal bytes}, parse afInet literal = some bytes → bytes.length = 4
  /-- An IPv6 address has sixteen bytes. -/
  length_v6 : ∀ {literal bytes}, parse afInet6 literal = some bytes → bytes.length = 16
  /-- An IPv4 literal consists of digits and dots. -/
  chars_v4 : ∀ {literal bytes}, parse afInet literal = some bytes →
    ∀ c ∈ literal, c.isDigit = true ∨ c = '.'
  /-- An IPv6 literal consists of hexadecimal digits, colons and dots. -/
  chars_v6 : ∀ {literal bytes}, parse afInet6 literal = some bytes →
    ∀ c ∈ literal, c.isAlphanum = true ∨ c = ':' ∨ c = '.'
  /-- An IPv6 literal has a colon. -/
  colon_v6 : ∀ {literal bytes}, parse afInet6 literal = some bytes → ':' ∈ literal

/-- `isspace`. -/
def isSpace (c : Char) : Bool := c ∈ [' ', '\t', '\n', '\x0b', '\x0c', '\r']

/-- The number that decimal digits stand for. -/
def digitsValue (digits : List Char) : Nat :=
  digits.foldl (fun value c => 10 * value + (c.toNat - '0'.toNat)) 0

/-- A value that does not fit a `long` becomes the nearest one that does. -/
def saturate (value : Int) : Int := max (-2 ^ 63) (min value (2 ^ 63 - 1))

/-- The optional sign of a number: whether it is a minus, and the text after it. -/
def readSign : List Char → Bool × List Char
  | '-' :: number => (true, number)
  | '+' :: number => (false, number)
  | number => (false, number)

/-- `strtol` in base 10: the value, and the text from `endptr` on. -/
def strtol (text : List Char) : Int × List Char :=
  let (negative, number) := readSign (text.dropWhile isSpace)
  let digits := number.takeWhile Char.isDigit
  if digits = [] then (0, text)
  else
    let value : Int := digitsValue digits
    (saturate (if negative then -value else value), number.dropWhile Char.isDigit)

/-- The conversion of a `long` to an `int`. -/
def toInt32 (value : Int) : Int := (BitVec.ofInt 32 value).toInt

/-- Some bytes written over others from an offset on. -/
def writeBytes (memory : Bytes) (offset : Nat) (bytes : Bytes) : Bytes :=
  memory.take offset ++ bytes ++ memory.drop (offset + bytes.length)

/-- The bytes of a `struct af_addr`: `af`, `mask_len`, two bytes of padding, `in`. -/
def AfAddr.bytes (a : AfAddr) : Bytes :=
  [a.af, a.maskLen] ++ be 2 a.pad.toNat ++ be 16 a.addr.toNat

/-- The `union some_in_addr` at the start of which some bytes were written. -/
def someInAddr (bytes : Bytes) : SomeInAddr :=
  BitVec.ofNat 128 (beNat (bytes ++ List.replicate (16 - bytes.length) 0))

/-- The identifier of a `struct config_prefix_list`. -/
abbrev PrefixListId := Nat

/-- The identifier of a `struct config_prefix_list_entry`. -/
abbrev PrefixEntryId := Nat

/-- `struct config_prefix_list_entry`. -/
structure ConfigPrefixListEntry where
  next : Option PrefixEntryId := none
  /-- The bytes of `addr`. -/
  addr : Bytes := List.replicate 20 0
  deriving DecidableEq, Repr

/-- `struct config_prefix_list`. -/
structure ConfigPrefixList where
  name : List Char := []
  head : Option PrefixEntryId := none
  tail : Option PrefixEntryId := none
  next : Option PrefixListId := none
  deriving DecidableEq, Repr

instance : Inhabited ConfigPrefixListEntry := ⟨{}⟩
instance : Inhabited ConfigPrefixList := ⟨{}⟩

/-- The part of `struct config` for the static prefixes, with the objects it leads to. -/
structure PrefixConfig where
  prefixListHead : Option PrefixListId := none
  lists : Heap ConfigPrefixList := {}
  entries : Heap ConfigPrefixListEntry := {}

/-- Where a `struct config_prefix_list **` points to. -/
inductive ListPlace
  /-- `&config->prefix_list_head`. -/
  | head
  /-- `&list->next`. -/
  | next (list : PrefixListId)
  deriving DecidableEq, Repr

/-- What such a pointer points to. -/
def PrefixConfig.deref (config : PrefixConfig) : ListPlace → Option PrefixListId
  | .head => config.prefixListHead
  | .next list => (config.lists.cell list).next

/-- A write through such a pointer. -/
def PrefixConfig.assign (config : PrefixConfig) (list : PrefixListId) : ListPlace → PrefixConfig
  | .head => { config with prefixListHead := some list }
  | .next last =>
    { config with
      lists := config.lists.modify last fun cell => { cell with next := some list } }

/-- The loop of `lookup_prefix_list`: the list found, and `next`. -/
def lookupPrefixListLoop (listName : List Char) (config : PrefixConfig) :
    Nat → ListPlace → Except Fault (Option PrefixListId × ListPlace)
  | fuel, next =>
    match config.deref next with
    | none => .ok (none, next)
    | some list =>
      if (config.lists.cell list).name = listName then .ok (some list, next)
      else
        match fuel with
        | 0 => .error .outOfFuel
        | fuel + 1 => lookupPrefixListLoop listName config fuel (.next list)

/-- `lookup_prefix_list`. -/
def lookupPrefixList (listName : List Char) (config : PrefixConfig) :
    Except Fault (Option PrefixListId × ListPlace) :=
  lookupPrefixListLoop listName config config.lists.next .head

/-- `get_or_create_prefix_list`. -/
def getOrCreatePrefixList (listName : List Char) (config : PrefixConfig) :
    Except Fault (PrefixListId × PrefixConfig) := do
  let (list, tail) ← lookupPrefixList listName config
  match list with
  | some list => return (list, config)
  | none =>
    let list := config.lists.next
    let config := { config with lists := config.lists.alloc { name := listName } }
    return (list, config.assign list tail)

/-- `onload_store_prefix`. -/
def onloadStorePrefix (listName : List Char) (pfx : ConfigPrefixListEntry)
    (config : PrefixConfig) : Except Fault PrefixConfig := do
  let (list, config) ← getOrCreatePrefixList listName config
  let entry := config.entries.next
  let config := { config with entries := config.entries.alloc pfx }
  let config := match (config.lists.cell list).tail with
    | some tail =>
      { config with
        entries := config.entries.modify tail fun cell => { cell with next := some entry } }
    | none =>
      { config with
        lists := config.lists.modify list fun cell => { cell with head := some entry } }
  return { config with
    lists := config.lists.modify list fun cell => { cell with tail := some entry } }

/-- The part of `onload_add_prefix` for the mask: `mask_len`, or none for `error_out`. -/
def onloadMask (maskstr : Option (List Char)) (afMaxMask : Int) : Option UInt8 :=
  match maskstr with
  | none => some (UInt8.ofNat afMaxMask.toNat)
  | some maskstr =>
    let (long, endptr) := strtol maskstr
    let val := toInt32 long
    if endptr ≠ [] then none
    else if val < 0 ∨ val > afMaxMask then none
    else some (UInt8.ofNat val.toNat)

/-- `-EINVAL`. -/
def minusEinval : Int := -22

/-- `onload_add_prefix`: its result, and the configuration after it. -/
def onloadAddPrefix (p : InetPton) (listName origAddr : List Char) (config : PrefixConfig) :
    Except Fault (Int × PrefixConfig) := do
  let ipstr := origAddr.takeWhile (· ≠ '/')
  let maskstr := match origAddr.dropWhile (· ≠ '/') with
    | [] => none
    | _ :: maskstr => some maskstr
  let af := if ':' ∈ ipstr then afInet6 else afInet
  match p.parse af ipstr with
  | none => return (minusEinval, config)
  | some bytes =>
    -- the destination is `&pfx.addr`, the start of the structure
    let addr := writeBytes (List.replicate 20 0) 0 bytes
    match onloadMask maskstr (if af = afInet then 32 else 128) with
    | none => return (minusEinval, config)
    | some maskLen =>
      let addr := writeBytes addr 1 [maskLen]
      let addr := writeBytes addr 0 [af]
      return (0, ← onloadStorePrefix listName { addr } config)

end FlowerRoute
