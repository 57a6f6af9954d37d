import Mathlib.Algebra.Group.Nat.Defs
import Mathlib.Data.List.Basic
import Mathlib.Data.Nat.Bits

/-!
# Bytes and attributes

Numbers as little-endian and big-endian bytes, and the attribute format of netlink messages:
a 16 bit length that counts its 4 byte header, a 16 bit kind, the payload, and padding to a
multiple of four. What is written as attributes is parsed back as the same attributes.
-/

/-- Bytes in memory order. -/
abbrev Bytes := List UInt8

namespace Tlv

/-- The `width` low bytes of a number, least significant first. -/
def le : Nat → Nat → Bytes
  | 0, _ => []
  | width + 1, n => UInt8.ofNat n :: le width (n / 256)

/-- The number that little-endian bytes stand for. -/
def leNat : Bytes → Nat
  | [] => 0
  | byte :: rest => byte.toNat + 256 * leNat rest

/-- The `width` low bytes of a number, most significant first. -/
def be (width n : Nat) : Bytes := (le width n).reverse

/-- The number that big-endian bytes stand for. -/
def beNat (bytes : Bytes) : Nat := leNat bytes.reverse

@[simp] theorem length_le (width n : Nat) : (le width n).length = width := by
  induction width generalizing n with
  | zero => rfl
  | succ width ih => simp [le, ih]

@[simp] theorem length_be (width n : Nat) : (be width n).length = width := by
  simp [be]

/-- Reading back little-endian bytes keeps the low part of the number. -/
theorem leNat_le (width n : Nat) : leNat (le width n) = n % 256 ^ width := by
  induction width generalizing n with
  | zero => simp [le, leNat, Nat.mod_one]
  | succ width ih =>
    have split : n % 256 ^ (width + 1) = n % 256 + 256 * (n / 256 % 256 ^ width) := by
      rw [Nat.pow_succ, Nat.mul_comm, Nat.mod_mul]
    rw [split, le, leNat, ih, UInt8.toNat_ofNat']

/-- Writing what was read gives the same bytes. -/
theorem le_leNat (bytes : Bytes) : le bytes.length (leNat bytes) = bytes := by
  induction bytes with
  | nil => rfl
  | cons byte rest ih =>
    have bound := byte.toNat_lt
    have high : (byte.toNat + 256 * leNat rest) / 256 = leNat rest := by omega
    simp only [List.length_cons, le, leNat, high, ih, List.cons.injEq, and_true]
    apply UInt8.toNat_inj.mp
    simp only [UInt8.toNat_ofNat']
    omega

/-- Little-endian bytes stand for a number within their width. -/
theorem leNat_lt (bytes : Bytes) : leNat bytes < 256 ^ bytes.length := by
  rw [← le_leNat bytes, leNat_le, length_le]
  exact Nat.mod_lt _ (Nat.pow_pos (by decide))

/-- Zero bytes below shift the number of the bytes above them. -/
theorem leNat_replicate_append (count : Nat) (bytes : Bytes) :
    leNat (List.replicate count 0 ++ bytes) = 256 ^ count * leNat bytes := by
  induction count with
  | zero => simp
  | succ count ih =>
    rw [List.replicate_succ, List.cons_append, leNat, ih, Nat.pow_succ', Nat.mul_assoc]
    simp

/-- Reading back big-endian bytes keeps the low part of the number. -/
theorem beNat_be (width n : Nat) : beNat (be width n) = n % 256 ^ width := by
  simp [beNat, be, leNat_le]

/-- Big-endian writing of what was read gives the same bytes. -/
theorem be_beNat (bytes : Bytes) : be bytes.length (beNat bytes) = bytes := by
  have reversed := le_leNat bytes.reverse
  rw [List.length_reverse] at reversed
  rw [be, beNat, reversed, List.reverse_reverse]

/-- The low bytes of a number after its lowest ones are those of the shifted number. -/
theorem drop_le (width skip n : Nat) : (le (width + skip) n).drop skip = le width (n / 256 ^ skip) := by
  induction skip generalizing n with
  | zero => simp
  | succ skip ih =>
    rw [← Nat.add_assoc, le, List.drop_succ_cons, ih, Nat.div_div_eq_div_mul,
      Nat.pow_succ, Nat.mul_comm]

/-- The leading big-endian bytes are those of the shifted number. -/
theorem take_be (width skip n : Nat) :
    (be (width + skip) n).take width = be width (n / 256 ^ skip) := by
  rw [be, be, List.take_reverse, length_le, Nat.add_sub_cancel_left, drop_le]

/-- The length rounded up to a multiple of four. -/
def align (length : Nat) : Nat := (length + 3) / 4 * 4

/-- An attribute: the kind with its flag bits, and the payload. -/
structure Attr where
  kind : Nat
  payload : Bytes
  deriving DecidableEq, Repr

namespace Attr

/-- The length and the kind fit their fields. -/
def Fits (a : Attr) : Prop := 4 + a.payload.length < 65536 ∧ a.kind < 65536

instance (a : Attr) : Decidable a.Fits := inferInstanceAs (Decidable (_ ∧ _))

/-- The kind without its flag bits. -/
def type (a : Attr) : Nat := a.kind % 16384

/-- The attribute as it lies in a message, with its padding. -/
def encode (a : Attr) : Bytes :=
  le 2 (4 + a.payload.length) ++ (le 2 a.kind ++ (a.payload ++
    List.replicate (align a.payload.length - a.payload.length) 0))

end Attr

/-- Attributes one after the other. -/
def encodeAll (attrs : List Attr) : Bytes := attrs.flatMap Attr.encode

/-- The attributes at the start of some bytes, at most `count` of them. The walk stops at the
first header that does not fit in what is left. -/
def parseUpTo : Nat → Bytes → List Attr
  | 0, _ => []
  | count + 1, bytes =>
    let length := leNat (bytes.take 2)
    if 4 ≤ bytes.length ∧ 4 ≤ length ∧ length ≤ bytes.length then
      ⟨leNat ((bytes.drop 2).take 2), (bytes.take length).drop 4⟩ ::
        parseUpTo count (bytes.drop (align length))
    else []

/-- All attributes of some bytes; every attribute takes four bytes at least. -/
def parse (bytes : Bytes) : List Attr := parseUpTo bytes.length bytes

/-- An encoded attribute is as long as its header and its aligned payload. -/
theorem Attr.length_encode (a : Attr) : a.encode.length = 4 + align a.payload.length := by
  have bound : a.payload.length ≤ align a.payload.length := by simp only [align]; omega
  simp only [encode, List.length_append, length_le, List.length_replicate]
  omega

@[simp] theorem length_encodeAll_nil : (encodeAll []).length = 0 := rfl

@[simp] theorem length_encodeAll_cons (a : Attr) (attrs : List Attr) :
    (encodeAll (a :: attrs)).length = 4 + align a.payload.length + (encodeAll attrs).length := by
  rw [encodeAll, List.flatMap_cons, List.length_append, Attr.length_encode, encodeAll]

/-- Parsing meets an encoded attribute first. -/
theorem parseUpTo_encode {a : Attr} (fits : a.Fits) (count : Nat) (rest : Bytes) :
    parseUpTo (count + 1) (a.encode ++ rest) = a :: parseUpTo count rest := by
  obtain ⟨short, kind⟩ := fits
  have length : leNat ((a.encode ++ rest).take 2) = 4 + a.payload.length := by
    rw [Attr.encode, List.append_assoc, List.take_left' (length_le 2 _), leNat_le]
    exact Nat.mod_eq_of_lt short
  have read : leNat (((a.encode ++ rest).drop 2).take 2) = a.kind := by
    rw [Attr.encode, List.append_assoc, List.drop_left' (length_le 2 _), List.append_assoc,
      List.take_left' (length_le 2 _), leNat_le]
    exact Nat.mod_eq_of_lt kind
  have total : (a.encode ++ rest).length = 4 + align a.payload.length + rest.length := by
    rw [List.length_append, Attr.length_encode]
  have payload : ((a.encode ++ rest).take (4 + a.payload.length)).drop 4 = a.payload := by
    rw [Attr.encode, ← List.append_assoc (le 2 _) (le 2 _), List.append_assoc _ _ rest,
      List.append_assoc a.payload, List.drop_take,
      List.drop_left' (by simp only [List.length_append, length_le]),
      Nat.add_sub_cancel_left, List.take_left' rfl]
  have tail : (a.encode ++ rest).drop (align (4 + a.payload.length)) = rest := by
    have aligned : align (4 + a.payload.length) = a.encode.length := by
      rw [Attr.length_encode]
      simp only [align]
      omega
    rw [aligned, List.drop_left' rfl]
  have bound : a.payload.length ≤ align a.payload.length := by simp only [align]; omega
  simp only [parseUpTo, length, read, total, payload, tail]
  rw [if_pos (by omega)]

/-- What was written as attributes is parsed as the same attributes. -/
theorem parse_encodeAll {attrs : List Attr} (fits : ∀ a ∈ attrs, a.Fits) :
    parse (encodeAll attrs) = attrs := by
  have enough : attrs.length ≤ (encodeAll attrs).length := by
    clear fits
    induction attrs with
    | nil => exact Nat.zero_le _
    | cons a attrs ih =>
      have := Attr.length_encode a
      simp only [encodeAll, List.flatMap_cons, List.length_append, List.length_cons] at ih ⊢
      omega
  suffices general : ∀ count, attrs.length ≤ count → parseUpTo count (encodeAll attrs) = attrs from
    general _ enough
  clear enough
  induction attrs with
  | nil =>
    intro count _
    cases count <;> simp [parseUpTo, encodeAll]
  | cons a attrs ih =>
    intro count enough
    obtain ⟨count, rfl⟩ : ∃ smaller, count = smaller + 1 := ⟨count - 1, by
      simp only [List.length_cons] at enough; omega⟩
    rw [encodeAll, List.flatMap_cons, parseUpTo_encode (fits a List.mem_cons_self)]
    refine congrArg (a :: ·) (ih (fun b member => fits b (List.mem_cons_of_mem _ member)) count ?_)
    simp only [List.length_cons] at enough
    omega

end Tlv
