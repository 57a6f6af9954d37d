import Mathlib.Data.BitVec

/-!
# Addresses

`common.h` and `common.c`: address families, `union some_in_addr`, `struct af_addr` and
`build_af_addr`. The 16 bytes of the union are one big-endian word, so an IPv4 address is
its top 32 bits and `memcmp` on two of them compares the words.
-/

namespace FlowerRoute

/-- The faults at which the daemon stops. -/
inductive Fault
  /-- An `AN`, `AZ` or `assert` failed: `abort()`. -/
  | assertion
  /-- One of them failed on the state of a rule object or on its `want`. -/
  | ruleState
  /-- A NULL pointer was followed. -/
  | nullPointer
  /-- An object was read after it had been reaped. -/
  | freedObject
  /-- A buffer was read or written beyond its end. -/
  | outOfBounds
  /-- The call depth bound of the model was reached; no fault of the daemon. -/
  | outOfFuel
  deriving DecidableEq, Repr

/-- `AF_INET`. -/
def afInet : UInt8 := 2

/-- `AF_INET6`. -/
def afInet6 : UInt8 := 10

/-- `union some_in_addr`: 16 bytes in memory order. -/
abbrev SomeInAddr := BitVec 128

/-- `uint8_t lladdr[ETH_ALEN]`: 6 bytes in memory order. -/
abbrev Lladdr := BitVec 48

/-- `struct af_addr`. -/
structure AfAddr where
  /-- Address family. -/
  af : UInt8
  /-- Prefix length. -/
  maskLen : UInt8
  /-- The address. -/
  addr : SomeInAddr
  /-- The two bytes of padding before the address; nothing but `memcpy` and `memcmp` touch them. -/
  pad : UInt16 := 0
  deriving DecidableEq, Repr

/-- The bytes of an `af_addr` before its address, as one number: family, length, padding. -/
def AfAddr.head (a : AfAddr) : Nat :=
  (a.af.toNat * 256 + a.maskLen.toNat) * 65536 + a.pad.toNat

/-- The whole structure as one big-endian number of 20 bytes. -/
def AfAddr.word (a : AfAddr) : Nat := a.head * 2 ^ 128 + a.addr.toNat

/-- `memcmp` of two `af_addr` structures. -/
def AfAddr.memcmp (a b : AfAddr) : Int := (a.word : Int) - b.word

/-- `memcmp` is zero exactly on equal structures. -/
theorem AfAddr.memcmp_eq_zero {a b : AfAddr} : a.memcmp b = 0 ↔ a = b := by
  constructor
  · intro equal
    have words : a.word = b.word := by simp only [AfAddr.memcmp] at equal; omega
    have ha := a.addr.isLt
    have hb := b.addr.isLt
    have fa := a.maskLen.toNat_lt
    have fb := b.maskLen.toNat_lt
    have pa := a.pad.toNat_lt
    have pb := b.pad.toNat_lt
    simp only [AfAddr.word, AfAddr.head] at words
    obtain ⟨af, len, addr, pad⟩ := a
    obtain ⟨af', len', addr', pad'⟩ := b
    simp only [AfAddr.mk.injEq]
    refine ⟨UInt8.toNat_inj.mp ?_, UInt8.toNat_inj.mp ?_, BitVec.eq_of_toNat_eq ?_,
      UInt16.toNat_inj.mp ?_⟩
      <;> dsimp only at * <;> omega
  · rintro rfl
    simp [AfAddr.memcmp]

/-- Only the first four bytes of the union, as `memcpy` of a `struct in_addr` copies. -/
def v4Part (addr : SomeInAddr) : SomeInAddr := (addr >>> 96) <<< 96

/-- `build_af_addr`. -/
def buildAfAddr (af : UInt8) (addr : Option SomeInAddr) (maskLen : UInt8) :
    Except Fault AfAddr :=
  match addr with
  | none => .ok ⟨af, maskLen, 0, 0⟩
  | some addr =>
    if af = afInet then .ok ⟨af, maskLen, v4Part addr, 0⟩
    else if af = afInet6 then .ok ⟨af, maskLen, addr, 0⟩
    else .error .assertion

/-- A built address has the family and the length it was built for, and no padding. -/
theorem buildAfAddr_head {af maskLen : UInt8} {addr : Option SomeInAddr} {built : AfAddr}
    (returned : buildAfAddr af addr maskLen = .ok built) :
    built.af = af ∧ built.maskLen = maskLen ∧ built.pad = 0 := by
  unfold buildAfAddr at returned
  split at returned
  · cases returned
    exact ⟨rfl, rfl, rfl⟩
  · split at returned
    · cases returned
      exact ⟨rfl, rfl, rfl⟩
    · split at returned <;> cases returned
      exact ⟨rfl, rfl, rfl⟩

end FlowerRoute
