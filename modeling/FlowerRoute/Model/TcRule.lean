import FlowerRoute.Model.Address

/-!
# Rules

`tc_rule.h` and `tc_rule.c`: the rule descriptor that the daemon wants installed or decodes
from a kernel filter, its type, its traits and how a type is detected from traits.
-/

namespace FlowerRoute

/-- `enum tc_rule_types`. -/
inductive TcRuleType
  | unspec
  | alien
  | forward
  | routeTrap
  | routeGoto
  | routeDftGoto
  | ttlCheck
  deriving DecidableEq, Repr

/-- The value of the enumeration constant. -/
def TcRuleType.toNat : TcRuleType → Nat
  | .unspec => 0
  | .alien => 1
  | .forward => 2
  | .routeTrap => 3
  | .routeGoto => 4
  | .routeDftGoto => 5
  | .ttlCheck => 6

/-- `TC_RULE_HAVE_AF`. -/
def haveAf : UInt32 := 0x01
/-- `TC_RULE_HAVE_IP`. -/
def haveIp : UInt32 := 0x02
/-- `TC_RULE_HAVE_GOTO`. -/
def haveGoto : UInt32 := 0x04
/-- `TC_RULE_HAVE_TRAP`. -/
def haveTrap : UInt32 := 0x08
/-- `TC_RULE_HAVE_TTL_CHECK`. -/
def haveTtlCheck : UInt32 := 0x10
/-- `TC_RULE_HAVE_TTL_DEC`. -/
def haveTtlDec : UInt32 := 0x20
/-- `TC_RULE_HAVE_LLADDR`. -/
def haveLladdr : UInt32 := 0x40
/-- `TC_RULE_HAVE_VLAN_MOD`. -/
def haveVlanMod : UInt32 := 0x80
/-- `TC_RULE_HAVE_AF_IP`. -/
def haveAfIp : UInt32 := haveAf ||| haveIp

/-- `struct tc_rule`. -/
structure TcRule where
  type : TcRuleType := .unspec
  vlanId : UInt16 := 0
  flowerFlags : UInt32 := 0
  gotoTarget : UInt32 := 0
  traits : UInt32 := 0
  afAddr : AfAddr := ⟨0, 0, 0, 0⟩
  ttl : UInt8 := 0
  /-- `lladdr.dst`. -/
  dst : Lladdr := 0
  /-- `lladdr.src`. -/
  src : Lladdr := 0
  deriving DecidableEq, Repr

/-- `rule->traits |= traits`. -/
def TcRule.addTraits (r : TcRule) (traits : UInt32) : TcRule :=
  { r with traits := r.traits ||| traits }

/-- The bytes of a little-endian 32 bit word, read as a big-endian number. -/
def swap32 (n : Nat) : Nat :=
  ((n % 256 * 256 + n / 256 % 256) * 256 + n / 65536 % 256) * 256 + n / 2 ^ 24

/-- The 56 bytes of the structure as one big-endian number, padding included. -/
def TcRule.word (r : TcRule) : Nat :=
  let head := (swap32 r.type.toNat * 2 ^ 32 + swap32 r.vlanId.toNat) * 2 ^ 96 +
    (swap32 r.flowerFlags.toNat * 2 ^ 32 + swap32 r.gotoTarget.toNat) * 2 ^ 32 +
      swap32 r.traits.toNat
  ((head * 2 ^ 160 + r.afAddr.word) * 2 ^ 32 + r.ttl.toNat * 2 ^ 24) * 2 ^ 96 +
    r.dst.toNat * 2 ^ 48 + r.src.toNat

/-- `memcmp` of two rules. -/
def TcRule.memcmp (a b : TcRule) : Int := (a.word : Int) - b.word

/-- Two positional numbers with digits below the base agree digit by digit. -/
theorem digits_eq (base : Nat) {a b c d : Nat} (hb : b < base) (hd : d < base)
    (same : a * base + b = c * base + d) : a = c ∧ b = d := by
  have positive : 0 < base := Nat.lt_of_le_of_lt (Nat.zero_le _) hb
  have low := congrArg (· % base) same
  have high := congrArg (· / base) same
  simp only [Nat.mul_add_mod', Nat.mod_eq_of_lt hb, Nat.mod_eq_of_lt hd] at low
  refine ⟨?_, low⟩
  simpa [Nat.add_div_of_dvd_right (Nat.dvd_mul_left base _), Nat.mul_div_cancel _ positive,
    Nat.div_eq_of_lt hb, Nat.div_eq_of_lt hd] using high

/-- Byte order is a permutation, so a swapped word determines the word. -/
theorem swap32_injective {m n : Nat} (hm : m < 2 ^ 32) (hn : n < 2 ^ 32)
    (same : swap32 m = swap32 n) : m = n := by
  have digit : ∀ k, k % 256 < 256 := fun k => Nat.mod_lt k (by decide)
  obtain ⟨rest, high⟩ := digits_eq 256 (by omega) (by omega) same
  obtain ⟨rest, third⟩ := digits_eq _ (digit _) (digit _) rest
  obtain ⟨low, second⟩ := digits_eq _ (digit _) (digit _) rest
  have split : ∀ k, k = ((k / 2 ^ 24 * 256 + k / 65536 % 256) * 256 + k / 256 % 256) * 256 +
      k % 256 := fun k => by omega
  rw [split m, split n, low, second, third, high]

/-- A swapped word is again a 32 bit word. -/
theorem swap32_lt {n : Nat} (hn : n < 2 ^ 32) : swap32 n < 2 ^ 32 := by
  simp only [swap32]
  omega

/-- Type constants differ on different types. -/
theorem TcRuleType.toNat_injective {a b : TcRuleType} (same : a.toNat = b.toNat) : a = b := by
  cases a <;> cases b <;> first | rfl | cases same

/-- `memcmp` is zero exactly on equal rules. -/
theorem TcRule.memcmp_eq_zero {a b : TcRule} : a.memcmp b = 0 ↔ a = b := by
  constructor
  · intro equal
    have words : a.word = b.word := by simp only [TcRule.memcmp] at equal; omega
    obtain ⟨t, v, f, g, tr, ad, tl, d, s⟩ := a
    obtain ⟨t', v', f', g', tr', ad', tl', d', s'⟩ := b
    simp only [TcRule.word, Nat.add_assoc] at words
    have types : ∀ k : TcRuleType, k.toNat < 2 ^ 32 := fun k => by cases k <;> decide
    have vb := v.toNat_lt
    have vb' := v'.toNat_lt
    have fb := swap32_lt f.toNat_lt
    have fb' := swap32_lt f'.toNat_lt
    have gb := swap32_lt g.toNat_lt
    have gb' := swap32_lt g'.toNat_lt
    have trb := swap32_lt tr.toNat_lt
    have trb' := swap32_lt tr'.toNat_lt
    have db := d.isLt
    have db' := d'.isLt
    have sb := s.isLt
    have sb' := s'.isLt
    have lb := tl.toNat_lt
    have lb' := tl'.toNat_lt
    have vsb := swap32_lt (n := v.toNat) (by omega)
    have vsb' := swap32_lt (n := v'.toNat) (by omega)
    have ab : ∀ x : AfAddr, x.word < 2 ^ 160 := fun x => by
      have := x.addr.isLt
      have := x.maskLen.toNat_lt
      have := x.af.toNat_lt
      have := x.pad.toNat_lt
      simp only [AfAddr.word, AfAddr.head]
      omega
    obtain ⟨rest, low⟩ := digits_eq _ (by omega) (by omega) words
    obtain ⟨heads, ttls⟩ := digits_eq (2 ^ 32) (by omega) (by omega) rest
    obtain ⟨head, addr⟩ := digits_eq _ (ab _) (ab _) heads
    obtain ⟨first, second⟩ := digits_eq (2 ^ 96) (by omega) (by omega) head
    obtain ⟨kinds, vlans⟩ := digits_eq _ vsb vsb' first
    obtain ⟨fg, trs⟩ := digits_eq _ trb trb' second
    obtain ⟨fs, gs⟩ := digits_eq _ gb gb' fg
    obtain ⟨ds, ss⟩ := digits_eq _ sb sb' low
    simp only [TcRule.mk.injEq]
    refine ⟨TcRuleType.toNat_injective (swap32_injective (types _) (types _) kinds),
      UInt16.toNat_inj.mp (swap32_injective (by omega) (by omega) vlans),
      UInt32.toNat_inj.mp (swap32_injective f.toNat_lt f'.toNat_lt fs),
      UInt32.toNat_inj.mp (swap32_injective g.toNat_lt g'.toNat_lt gs),
      UInt32.toNat_inj.mp (swap32_injective tr.toNat_lt tr'.toNat_lt trs), ?_,
      UInt8.toNat_inj.mp (by omega), BitVec.eq_of_toNat_eq ds, BitVec.eq_of_toNat_eq ss⟩
    exact AfAddr.memcmp_eq_zero.mp (by simp [AfAddr.memcmp, addr])
  · rintro rfl
    simp [TcRule.memcmp]

/-- `type_traits`; a type without an entry has traits zero. -/
def typeTraits : TcRuleType → UInt32
  | .forward => haveAf ||| haveLladdr ||| haveTtlDec ||| haveVlanMod
  | .ttlCheck => haveAf ||| haveTtlCheck ||| haveTrap
  | .routeGoto => haveAfIp ||| haveGoto
  | .routeDftGoto => haveAf ||| haveGoto
  | .routeTrap => haveAfIp ||| haveTrap
  | .unspec | .alien => 0

/-- `tc_rule_set_type`. -/
def tcRuleSetType (rule : TcRule) (type : TcRuleType) : Except Fault TcRule :=
  if rule.type = .alien then .ok rule
  else if rule.type = .unspec then .ok { rule with type }
  else .error .assertion

/-- `tc_rule_set_type_and_traits`. -/
def tcRuleSetTypeAndTraits (rule : TcRule) (type : TcRuleType) : Except Fault TcRule := do
  let rule ← tcRuleSetType rule type
  let rule := if rule.traits = 0 then { rule with traits := typeTraits type } else rule
  if rule.traits ≠ 0 then .ok rule else .error .assertion

/-- `tc_rule_mark_alien`. -/
def tcRuleMarkAlien (rule : TcRule) : Except Fault TcRule := tcRuleSetType rule .alien

/-- The types in the order of `type_traits`. -/
def tcRuleTypes : List TcRuleType :=
  [.unspec, .alien, .forward, .routeTrap, .routeGoto, .routeDftGoto, .ttlCheck]

/-- The search of `tc_rule_detect` for the first type with the rule's traits. -/
def tcRuleDetectLoop (rule : TcRule) : List TcRuleType → TcRule × TcRuleType
  | [] => (rule, .alien)
  | type :: rest =>
    if 0 < typeTraits type ∧ typeTraits type = rule.traits then
      if type = .routeDftGoto then
        ({ rule with traits := typeTraits .routeGoto }, .routeGoto)
      else (rule, type)
    else tcRuleDetectLoop rule rest

/-- `tc_rule_detect`; it may rewrite the traits. -/
def tcRuleDetect (rule : TcRule) : TcRule × TcRuleType := tcRuleDetectLoop rule tcRuleTypes

end FlowerRoute
