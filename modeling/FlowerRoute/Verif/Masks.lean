import FlowerRoute.Model.TcDecode
import Mathlib.Tactic.IntervalCases

/-!
# Recognising masks

`count_ones` goes through the octets of a mask as long as they are full, and decides at the first
other one. What it returns is compared with what a mask is: ones, and behind them only zeros.
-/

namespace FlowerRoute

open Tlv

/-- The bits of an octet in network order. -/
def octetBits (octet : UInt8) : List Bool :=
  (List.range 8).map fun i => octet.toBitVec.getMsbD i

/-- The bits of a payload in network order. -/
def payloadBits (payload : Bytes) : List Bool := payload.flatMap octetBits

/-- A payload is a number of ones with only zeros behind them. -/
def IsMask (n : Nat) (payload : Bytes) : Prop :=
  ∃ m, payloadBits payload = List.replicate n true ++ List.replicate m false

section Octets

/-- The octets other than a full one at which `count_ones` returns a number. -/
def maskOctet (k : Nat) : UInt8 := UInt8.ofNat (256 - 2 ^ (8 - k))

theorem length_octetBits (octet : UInt8) : (octetBits octet).length = 8 := by
  simp [octetBits]

/-- The bits determine the octet. -/
theorem octetBits_injective {octet octet' : UInt8} (same : octetBits octet = octetBits octet') :
    octet = octet' := by
  apply UInt8.toBitVec_inj.mp
  apply BitVec.eq_of_getMsbD_eq
  intro i less
  have at_i := congrArg (fun bits => bits[i]?) same
  simpa [octetBits, List.getElem?_map, List.getElem?_range, less] using at_i

/-- The ones of an octet that is a mask. -/
theorem octetBits_maskOctet {k : Nat} (less : k < 8) :
    octetBits (maskOctet k) = List.replicate k true ++ List.replicate (8 - k) false := by
  interval_cases k <;> decide

theorem octetBits_full : octetBits 0xff = List.replicate 8 true := by decide

theorem octetBits_zero : octetBits 0 = List.replicate 8 false := by decide

/-- One round of the loop at an octet that is not full. -/
theorem countOnesLoop_maskOctet {k : Nat} (less : k < 8) (rest : Bytes) (ret : UInt8) :
    countOnesLoop (maskOctet k :: rest) ret = some (ret + UInt8.ofNat k) := by
  interval_cases k <;> simp [countOnesLoop, maskOctet]

/-- The loop marks the rule at every other octet. -/
theorem countOnesLoop_other {octet : UInt8} (full : octet ≠ 0xff)
    (other : ∀ k < 8, octet ≠ maskOctet k) (rest : Bytes) (ret : UInt8) :
    countOnesLoop (octet :: rest) ret = none := by
  have seven : octet ≠ 0xfe := other 7 (by decide)
  have six : octet ≠ 0xfc := other 6 (by decide)
  have five : octet ≠ 0xf8 := other 5 (by decide)
  have four : octet ≠ 0xf0 := other 4 (by decide)
  have three : octet ≠ 0xe0 := other 3 (by decide)
  have two : octet ≠ 0xc0 := other 2 (by decide)
  have one : octet ≠ 0x80 := other 1 (by decide)
  have zero : octet ≠ 0x00 := other 0 (by decide)
  simp [countOnesLoop, full, seven, six, five, four, three, two, one, zero]

end Octets

section Masks

variable {octet : UInt8} {rest data : Bytes} {n : Nat}

theorem payloadBits_cons (octet : UInt8) (rest : Bytes) :
    payloadBits (octet :: rest) = octetBits octet ++ payloadBits rest := rfl

/-- Only zero octets have no ones. -/
theorem payloadBits_zeros {m : Nat} (zeros : payloadBits data = List.replicate m false) :
    ∀ octet ∈ data, octet = 0 := by
  intro octet inside
  apply octetBits_injective
  rw [octetBits_zero]
  apply List.eq_replicate_iff.mpr
  refine ⟨length_octetBits octet, fun bit member => ?_⟩
  have among : bit ∈ payloadBits data := List.mem_flatMap.mpr ⟨octet, inside, member⟩
  rw [zeros] at among
  exact List.eq_of_mem_replicate among

/-- Zero octets have no ones. -/
theorem payloadBits_of_zeros (zeros : ∀ octet ∈ data, octet = 0) :
    payloadBits data = List.replicate (8 * data.length) false := by
  induction data with
  | nil => rfl
  | cons octet rest ih =>
    have head : octet = 0 := zeros octet List.mem_cons_self
    have tail := ih fun other inside => zeros other (List.mem_cons_of_mem _ inside)
    rw [payloadBits_cons, head, octetBits_zero, tail, List.length_cons,
      ← List.replicate_add]
    congr 1
    omega

/-- The empty payload is no ones. -/
theorem isMask_nil : IsMask n [] ↔ n = 0 := by
  constructor
  · rintro ⟨m, bits⟩
    have length := congrArg List.length bits
    simp [payloadBits] at length
    omega
  · rintro rfl
    exact ⟨0, rfl⟩

/-- A full octet is eight ones. -/
theorem isMask_full : IsMask n (0xff :: rest) ↔ ∃ k, n = k + 8 ∧ IsMask k rest := by
  constructor
  · rintro ⟨m, bits⟩
    rw [payloadBits_cons, octetBits_full] at bits
    have enough : 8 ≤ n := by
      by_contra few
      -- behind fewer than eight ones a zero would stand in the full octet
      obtain ⟨k, eight⟩ : ∃ k, 8 = n + (k + 1) := ⟨7 - n, by omega⟩
      rw [eight, List.replicate_add, List.append_assoc] at bits
      have behind := List.append_cancel_left bits
      cases m with
      | zero => simp [List.replicate_succ] at behind
      | succ m => simp [List.replicate_succ] at behind
    have split : List.replicate n true = List.replicate 8 true ++ List.replicate (n - 8) true := by
      rw [← List.replicate_add]
      congr 1
      omega
    rw [split, List.append_assoc] at bits
    refine ⟨n - 8, by omega, m, List.append_cancel_left bits⟩
  · rintro ⟨k, rfl, m, bits⟩
    refine ⟨m, ?_⟩
    rw [payloadBits_cons, octetBits_full, bits, Nat.add_comm k 8, List.replicate_add,
      List.append_assoc]

/-- A mask that does not start with a full octet starts with an octet that is a mask, and only
zeros follow. -/
theorem isMask_cons (full : octet ≠ 0xff) :
    IsMask n (octet :: rest) ↔ n < 8 ∧ octet = maskOctet n ∧ ∀ other ∈ rest, other = 0 := by
  constructor
  · rintro ⟨m, bits⟩
    rw [payloadBits_cons] at bits
    have length := congrArg List.length bits
    simp only [List.length_append, List.length_replicate, length_octetBits] at length
    have less : n < 8 := by
      by_contra many
      have split : List.replicate n true = List.replicate 8 true ++
          List.replicate (n - 8) true := by
        rw [← List.replicate_add]
        congr 1
        omega
      rw [split, List.append_assoc] at bits
      obtain ⟨head, -⟩ := List.append_inj bits (by simp [length_octetBits])
      exact full (octetBits_injective (head.trans octetBits_full.symm))
    have split : List.replicate m false = List.replicate (8 - n) false ++
        List.replicate (m - (8 - n)) false := by
      rw [← List.replicate_add]
      congr 1
      omega
    rw [split, ← List.append_assoc] at bits
    obtain ⟨head, tail⟩ := List.append_inj bits (by simp [length_octetBits]; omega)
    refine ⟨less, octetBits_injective ?_, payloadBits_zeros tail⟩
    rw [head, octetBits_maskOctet less]
  · rintro ⟨less, rfl, zeros⟩
    refine ⟨8 - n + 8 * rest.length, ?_⟩
    rw [payloadBits_cons, octetBits_maskOctet less, payloadBits_of_zeros zeros, List.append_assoc,
      ← List.replicate_add]

end Masks

section CountOnes

variable {data : Bytes} {ret n : UInt8} {rule : TcRule}

/-- Behind the first octet that is not full, if that one is a mask, there are zeros only. -/
def ZerosBehind (data : Bytes) : Prop :=
  ∀ full octet behind, data = full ++ octet :: behind → (∀ other ∈ full, other = 0xff) →
    (∃ k < 8, octet = maskOctet k) → ∀ other ∈ behind, other = 0

/-- The loop of `count_ones` on a payload that is a mask. -/
theorem countOnesLoop_mask (short : ret.toNat + 8 * data.length < 256) {k : Nat}
    (mask : IsMask k data) : countOnesLoop data ret = some (ret + UInt8.ofNat k) := by
  induction data generalizing ret k with
  | nil =>
    rw [isMask_nil.mp mask]
    simp [countOnesLoop]
  | cons octet rest ih =>
    rw [List.length_cons] at short
    by_cases full : octet = 0xff
    · subst full
      obtain ⟨j, rfl, tail⟩ := isMask_full.mp mask
      have next : (ret + 8).toNat = ret.toNat + 8 := by
        rw [UInt8.toNat_add]
        exact Nat.mod_eq_of_lt (by simp; omega)
      have counted := ih (show (ret + 8).toNat + 8 * rest.length < 256 by omega) tail
      rw [countOnesLoop, if_pos rfl, counted]
      simp [UInt8.add_assoc, UInt8.add_comm]
    · obtain ⟨less, rfl, -⟩ := (isMask_cons full).mp mask
      exact countOnesLoop_maskOctet less rest ret

/-- What the loop of `count_ones` returns on a payload that has only zeros behind its ones is
the number of its ones. -/
theorem countOnesLoop_some (behind : ZerosBehind data) (short : ret.toNat + 8 * data.length < 256)
    (counted : countOnesLoop data ret = some n) :
    ∃ k, n.toNat = ret.toNat + k ∧ IsMask k data := by
  induction data generalizing ret with
  | nil =>
    cases counted
    exact ⟨0, rfl, isMask_nil.mpr rfl⟩
  | cons octet rest ih =>
    rw [List.length_cons] at short
    by_cases full : octet = 0xff
    · subst full
      rw [countOnesLoop, if_pos rfl] at counted
      have next : (ret + 8).toNat = ret.toNat + 8 := by
        rw [UInt8.toNat_add]
        exact Nat.mod_eq_of_lt (by simp; omega)
      have later : ZerosBehind rest := fun before other after split fulls =>
        behind (0xff :: before) other after (by rw [split, List.cons_append])
          (List.forall_mem_cons.mpr ⟨rfl, fulls⟩)
      obtain ⟨k, value, mask⟩ := ih later (by omega) counted
      exact ⟨k + 8, by omega, isMask_full.mpr ⟨k, rfl, mask⟩⟩
    · by_cases known : ∃ k < 8, octet = maskOctet k
      · have zeros := behind [] octet rest rfl (by simp) known
        obtain ⟨k, less, rfl⟩ := known
        rw [countOnesLoop_maskOctet less] at counted
        cases counted
        refine ⟨k, ?_, (isMask_cons full).mpr ⟨less, rfl, zeros⟩⟩
        rw [UInt8.toNat_add, UInt8.toNat_ofNat', Nat.mod_eq_of_lt (by omega : k < 2 ^ 8)]
        exact Nat.mod_eq_of_lt (by omega)
      · rw [countOnesLoop_other full fun k less same => known ⟨k, less, same⟩] at counted
        cases counted

/-- At a mask octet the loop of `count_ones` returns, whatever is behind it. -/
theorem countOnesLoop_stops {full behind : Bytes} {k : Nat} (fulls : ∀ other ∈ full, other = 0xff)
    (less : k < 8) : ∃ n, countOnesLoop (full ++ maskOctet k :: behind) ret = some n := by
  induction full generalizing ret with
  | nil => exact ⟨_, countOnesLoop_maskOctet less behind ret⟩
  | cons octet rest ih =>
    have first : octet = 0xff := fulls octet List.mem_cons_self
    subst first
    rw [List.cons_append, countOnesLoop, if_pos rfl]
    exact ih fun other inside => fulls other (List.mem_cons_of_mem _ inside)

/-- A payload that is a mask has only zeros behind its ones. -/
theorem IsMask.zerosBehind {k : Nat} (mask : IsMask k data) : ZerosBehind data := by
  intro full octet behind split fulls known
  subst split
  induction full generalizing k with
  | nil =>
    obtain ⟨j, less, rfl⟩ := known
    have notFull : maskOctet j ≠ 0xff := by interval_cases j <;> decide
    exact ((isMask_cons notFull).mp mask).2.2
  | cons other rest ih =>
    have first : other = 0xff := fulls other List.mem_cons_self
    subst first
    obtain ⟨j, -, mask⟩ := isMask_full.mp mask
    exact ih (fun other inside => fulls other (List.mem_cons_of_mem _ inside)) mask

/-- `count_ones` returns the number of ones of a mask without marking the rule, which was not
marked before, and marks it at every other payload. -/
structure Recognizes (data : Bytes) : Prop where
  mask : ∀ (rule : TcRule) (n : UInt8), rule.type = .unspec →
    (countOnes (some data) rule = .ok (n, rule) ↔ IsMask n.toNat data)
  other : ∀ rule : TcRule, rule.type = .unspec ∨ rule.type = .alien → (∀ n, ¬ IsMask n data) →
    countOnes (some data) rule = .ok (0, { rule with type := .alien })

/-- Marking a rule that is being decoded. -/
theorem countOnes_none (decoded : rule.type = .unspec ∨ rule.type = .alien)
    (counted : countOnesLoop data 0 = none) :
    countOnes (some data) rule = .ok (0, { rule with type := .alien }) := by
  have marks : tcRuleMarkAlien rule = .ok { rule with type := .alien } := by
    rcases decoded with unmarked | marked
    · simp [tcRuleMarkAlien, tcRuleSetType, unmarked]
    · rw [tcRuleMarkAlien, tcRuleSetType, if_pos marked, ← marked]
  simp [countOnes, counted, marks, decoding, Except.mapError, bind, Except.bind, pure, Except.pure]

/-- Masks are recognised exactly where only zeros follow the first octet that is not full. -/
theorem mask_recognition (data : Bytes) (short : data.length ≤ 31) :
    Recognizes data ↔ ZerosBehind data := by
  have room : (0 : UInt8).toNat + 8 * data.length < 256 := by
    rw [UInt8.toNat_zero]
    omega
  constructor
  · intro recognizes full octet behind split fulls known
    by_cases mask : ∃ n, IsMask n data
    · obtain ⟨n, mask⟩ := mask
      exact mask.zerosBehind full octet behind split fulls known
    · -- the loop stops at the octet and returns a number, so the rule is not marked
      obtain ⟨k, less, rfl⟩ := known
      obtain ⟨n, counted⟩ : ∃ n, countOnesLoop (full ++ maskOctet k :: behind) 0 = some n :=
        countOnesLoop_stops fulls less
      have returned : countOnes (some data) {} = .ok (n, {}) := by
        simp [countOnes, split, counted]
      exact absurd ⟨n.toNat, (recognizes.mask {} n rfl).mp returned⟩ mask
  · intro behind
    refine ⟨fun rule n unmarked => ⟨fun returned => ?_, fun mask => ?_⟩, fun rule decoded none => ?_⟩
    · cases counted : countOnesLoop data 0 with
      | none =>
        rw [countOnes_none (.inl unmarked) counted] at returned
        have marked := congrArg (fun r => r.2.type) (Except.ok.inj returned)
        rw [unmarked] at marked
        cases marked
      | some value =>
        obtain ⟨k, ones, mask⟩ := countOnesLoop_some behind room counted
        have same : value = n := by
          simpa [countOnes, counted] using returned
        rw [← same, ones, UInt8.toNat_zero, Nat.zero_add]
        exact mask
    · have counted := countOnesLoop_mask room mask
      simp [countOnes, counted]
    · apply countOnes_none decoded
      cases counted : countOnesLoop data 0 with
      | none => rfl
      | some value =>
        obtain ⟨k, -, mask⟩ := countOnesLoop_some behind room counted
        exact absurd mask (none k)

/-- The mask 255.240.0.0 is recognised. -/
theorem mask_recognition_twelve :
    ([0xff, 0xf0, 0, 0] : Bytes).length ≤ 31 ∧ Recognizes [0xff, 0xf0, 0, 0] := by
  refine ⟨by decide, (mask_recognition _ (by decide)).mpr ?_⟩
  exact IsMask.zerosBehind (k := 12) ⟨20, by decide⟩

/-- The mask 255.0.255.0 is taken for the mask 255.0.0.0. -/
theorem mask_recognition_fails : ¬ ∀ data : Bytes, data.length ≤ 31 → Recognizes data := by
  intro recognizes
  have mask := ((recognizes [0xff, 0, 0xff, 0] (by decide)).mask {} 8 rfl).mp rfl
  have zeros := mask.zerosBehind [0xff] 0 [0xff, 0] rfl (by simp) ⟨0, by decide, rfl⟩
  exact absurd (zeros 0xff List.mem_cons_self) (by decide)

end CountOnes

end FlowerRoute
