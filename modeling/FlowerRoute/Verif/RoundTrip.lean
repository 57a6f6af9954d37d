import FlowerRoute.Model.TcDecode
import Mathlib.Tactic.IntervalCases

/-!
# What is encoded is decoded

One lemma for each encoder: its decoder, run on the attributes it appends, gives the fields
back. They compose along the nesting of the message.
-/

namespace FlowerRoute

open Tlv Outcome

section Attributes

/-- Sizes of the payloads that the encoders put. -/
@[simp] theorem length_tcGen (action : UInt32) : (tcGen action).length = 20 := by
  simp [tcGen]

@[simp] theorem length_peditKey (key : PeditKey) : key.bytes.length = 24 := by
  simp [PeditKey.bytes]

@[simp] theorem length_tcePeditSel (tcr : TcRule) : (tcePeditSel tcr).length = 120 := by
  simp [tcePeditSel]

/-- A 32 bit number that was put is got back. -/
@[simp] theorem mnlAttrGetU32_le (x : UInt32) : mnlAttrGetU32 (le 4 x.toNat) = .ok x := by
  have read : readAt (le 4 x.toNat) 0 4 = .ok x.toNat :=
    readAt_le [] [] (by simp) rfl (by have := x.toNat_lt; omega)
  simp [mnlAttrGetU32, read, Functor.map, Except.map]

/-- A 16 bit number that was put is got back. -/
@[simp] theorem mnlAttrGetU16_le (x : UInt16) : mnlAttrGetU16 (some (le 2 x.toNat)) = .ok x := by
  have read : readAt (le 2 x.toNat) 0 2 = .ok x.toNat :=
    readAt_le [] [] (by simp) rfl (by have := x.toNat_lt; omega)
  simp [mnlAttrGetU16, read, Functor.map, Except.map]

/-- Attributes nested in one attribute are empty or have a header. -/
theorem nested_valid (attrs : List Attr) :
    mnlAttrValidate (encodeAll attrs) .nested = true := by
  cases attrs with
  | nil => rfl
  | cons a attrs =>
    simp only [mnlAttrValidate, length_encodeAll_cons, Bool.or_eq_true, decide_eq_true_eq]
    omega

/-- Attributes that fit, that their type map knows and that are valid. -/
def Known (map : TypeMap) (attrs : List Attr) : Prop :=
  ∀ a ∈ attrs, a.Fits ∧ a.type ≤ map.max ∧ map.type a.type ≠ .unspec ∧
    mnlAttrValidate a.payload (map.type a.type) = true

/-- The table of some attributes. -/
def tableOf (attrs : List Attr) : AttrTable :=
  attrs.foldl (fun tb a => tb.set a.type a.payload) AttrTable.empty

@[simp] theorem tableOf_nil (type : Nat) : tableOf [] type = none := rfl

/-- A later attribute of the same type replaces an earlier one. -/
@[simp] theorem tableOf_cons (a : Attr) (attrs : List Attr) (type : Nat) :
    tableOf (a :: attrs) type =
      (tableOf attrs type).or (if type = a.type then some a.payload else none) := by
  have start : ∀ tb : AttrTable, attrs.foldl (fun tb a => tb.set a.type a.payload) tb type =
      (tableOf attrs type).or (tb type) := by
    induction attrs with
    | nil => exact fun tb => rfl
    | cons b attrs ih =>
      intro tb
      have first : tableOf (b :: attrs) type =
        (tableOf attrs type).or (AttrTable.empty.set b.type b.payload type) := ih _
      rw [List.foldl_cons, ih, first, Option.or_assoc]
      congr 1
      simp only [AttrTable.set, AttrTable.empty]
      split <;> simp
  exact start _

/-- The table of attributes in two parts. -/
theorem tableOf_append (first second : List Attr) (type : Nat) :
    tableOf (first ++ second) type = (tableOf second type).or (tableOf first type) := by
  induction first with
  | nil => simp
  | cons a first ih => rw [List.cons_append, tableOf_cons, ih, tableOf_cons, Option.or_assoc]

/-- Types and payloads of attributes that were put. -/
@[simp] theorem type_mnlAttrPut {type : Nat} (payload : Bytes) (small : type < 16384) :
    (mnlAttrPut type payload).type = type := Nat.mod_eq_of_lt small

@[simp] theorem type_mnlAttrNest {type : Nat} (attrs : List Attr) (small : type < 16384) :
    (mnlAttrNest type attrs).type = type := by
  simp only [Attr.type, mnlAttrNest]
  omega

@[simp] theorem payload_mnlAttrPut (type : Nat) (payload : Bytes) :
    (mnlAttrPut type payload).payload = payload := rfl

@[simp] theorem payload_mnlAttrNest (type : Nat) (attrs : List Attr) :
    (mnlAttrNest type attrs).payload = encodeAll attrs := rfl

/-- Known attributes are parsed to their table, by any callback that enters them. -/
theorem parse_known {map : TypeMap} {attrs : List Attr} (known : Known map attrs)
    {callback : AttrTable → Attr → Except Stop AttrTable}
    (enters : ∀ tb, ∀ a ∈ attrs, callback tb a = decodeNlattr map tb a) :
    mnlAttrParse (encodeAll attrs) callback AttrTable.empty = .ok (tableOf attrs) := by
  rw [mnlAttrParse_encodeAll fun a member => (known a member).1, tableOf]
  generalize AttrTable.empty = tb
  induction attrs generalizing tb with
  | nil => rfl
  | cons a attrs ih =>
    obtain ⟨-, small, typed, valid⟩ := known a List.mem_cons_self
    have entered : callback tb a = .ok (tb.set a.type a.payload) := by
      rw [enters tb a List.mem_cons_self, decodeNlattr, if_neg (by omega), if_neg typed,
        if_pos valid]
    rw [List.foldlM_cons, entered]
    exact ih (fun b member => known b (List.mem_cons_of_mem _ member))
      (fun tb b member => enters tb b (List.mem_cons_of_mem _ member)) _

end Attributes

/-- The kinds of actions are told apart by their names. -/
theorem tcActHelpers_find {kind : String} {helper : Option Bytes → TcRule → Except Stop TcRule}
    (member : (kind, helper) ∈ tcActHelpers) :
    tcActHelpers.find? (fun helper => mnlAttrGetStr (ascii kind ++ [0]) = ascii helper.1) =
      some (kind, helper) := by
  simp only [tcActHelpers, List.mem_cons, Prod.mk.injEq, List.not_mem_nil, or_false] at member
  rcases member with ⟨rfl, rfl⟩ | ⟨rfl, rfl⟩ | ⟨rfl, rfl⟩ | ⟨rfl, rfl⟩ | ⟨rfl, rfl⟩ <;>
    simp [tcActHelpers, mnlAttrGetStr, ascii]

/-- The name of a kind is a valid string that fits. -/
theorem tcActHelpers_name {kind : String} {helper : Option Bytes → TcRule → Except Stop TcRule}
    (member : (kind, helper) ∈ tcActHelpers) :
    (ascii kind).length < 8 ∧ mnlAttrValidate (ascii kind ++ [0]) .nulString = true := by
  simp only [tcActHelpers, List.mem_cons, Prod.mk.injEq, List.not_mem_nil, or_false] at member
  rcases member with ⟨rfl, -⟩ | ⟨rfl, -⟩ | ⟨rfl, -⟩ | ⟨rfl, -⟩ | ⟨rfl, -⟩ <;> decide

/-- An action of a known kind is handed to its helper. -/
theorem decodeNlattrTcActCb_tceAction {kind : String}
    {helper : Option Bytes → TcRule → Except Stop TcRule} (member : (kind, helper) ∈ tcActHelpers)
    {options : List Attr} (short : (encodeAll options).length < 65000) (actNo : Nat)
    (rule : TcRule) :
    decodeNlattrTcActCb rule (tceAction actNo kind options) =
      helper (some (encodeAll options)) rule := by
  have name := tcActHelpers_name member
  have known : Known tcActAttrTypes [mnlAttrPutStrz 1 kind, mnlAttrNest 2 options] := by
    have nest := nested_valid options
    simp only [Known, mnlAttrPutStrz, mnlAttrPut, mnlAttrNest, List.mem_cons, List.not_mem_nil,
      or_false, forall_eq_or_imp, forall_eq, Attr.Fits, Attr.type, List.length_append,
      List.length_singleton, tcActAttrTypes]
    refine ⟨⟨⟨by omega, by decide⟩, by decide, by decide, name.2⟩, ⟨by omega, by decide⟩,
      by decide, by decide, nest⟩
  have payload : (tceAction actNo kind options).payload =
    encodeAll [mnlAttrPutStrz 1 kind, mnlAttrNest 2 options] := rfl
  have enters : ∀ tb, ∀ a ∈ [mnlAttrPutStrz 1 kind, mnlAttrNest 2 options],
      decodeNlattrTcActAttrCb tb a = decodeNlattr tcActAttrTypes tb a := fun tb a inside => by
    rw [decodeNlattrTcActAttrCb, require, if_pos (known a inside).2.1]
    rfl
  have first : tableOf [mnlAttrPutStrz 1 kind, mnlAttrNest 2 options] 1 =
    some (ascii kind ++ [0]) := by
    simp [tableOf, AttrTable.set, mnlAttrPutStrz, mnlAttrPut, mnlAttrNest, Attr.type]
  have second : tableOf [mnlAttrPutStrz 1 kind, mnlAttrNest 2 options] 2 =
    some (encodeAll options) := by
    simp [tableOf, AttrTable.set, mnlAttrPutStrz, mnlAttrPut, mnlAttrNest, Attr.type]
  rw [decodeNlattrTcActCb, payload, parse_known known enters]
  simp only [bind, Except.bind, first, second, tcActHelpers_find member]

/-- The decoded trap or goto of an encoded `gact`. -/
theorem decodeNlattrTcActGactCb_tcGen (action : UInt32) (rule : TcRule) :
    decodeNlattrTcActGactCb (some (encodeAll [mnlAttrPut 2 (tcGen action)])) rule =
      .ok (if action &&& ~~~0x0FFFFFFF = tcActGotoChain then
          { rule.addTraits haveGoto with gotoTarget := action &&& 0x0FFFFFFF }
        else if action = tcActTrap then rule.addTraits haveTrap
        else rule) := by
  have known : Known tcaGactAttrTypes [mnlAttrPut 2 (tcGen action)] := by
    simp [Known, mnlAttrPut, Attr.Fits, Attr.type, tcaGactAttrTypes, mnlAttrValidate]
  have parms : tableOf [mnlAttrPut 2 (tcGen action)] 2 = some (tcGen action) := rfl
  have read : readAt (tcGen action) 8 4 = .ok action.toNat :=
    readAt_le (le 4 0 ++ le 4 0) (le 4 0 ++ le 4 0) (by simp [tcGen]) (by simp)
      (by have := action.toNat_lt; omega)
  simp only [decodeNlattrTcActGactCb, mnlAttrParseNested, parse_known known fun _ _ _ => rfl,
    bind, Except.bind, parms, presentAttr, read, UInt32.ofNat_toNat, pure, Except.pure]
  split
  · rfl
  · split <;> rfl

/-- The decoded VLAN of an encoded VLAN change. -/
theorem decodeNlattrTcActVlanCb_tceModifyVlan {vlanId : UInt16} (tagged : vlanId ≠ 0)
    (rule : TcRule) :
    decodeNlattrTcActVlanCb (some (encodeAll [mnlAttrPut 2 (tcGen tcActPipe ++ le 4 3),
      mnlAttrPutU16 3 vlanId])) rule =
      .ok { rule.addTraits haveVlanMod with vlanId } := by
  have known : Known tcaVlanAttrTypes [mnlAttrPut 2 (tcGen tcActPipe ++ le 4 3),
      mnlAttrPutU16 3 vlanId] := by
    simp [Known, mnlAttrPutU16, mnlAttrPut, Attr.Fits, Attr.type, tcaVlanAttrTypes,
      mnlAttrValidate]
  have parms : tableOf [mnlAttrPut 2 (tcGen tcActPipe ++ le 4 3), mnlAttrPutU16 3 vlanId] 2 =
    some (tcGen tcActPipe ++ le 4 3) := rfl
  have id : tableOf [mnlAttrPut 2 (tcGen tcActPipe ++ le 4 3), mnlAttrPutU16 3 vlanId] 3 =
    some (le 2 vlanId.toNat) := rfl
  have read : readAt (tcGen tcActPipe ++ le 4 3) 20 4 = .ok 3 := by decide
  have positive : 0 < vlanId := UInt16.pos_iff_ne_zero.mpr tagged
  simp [decodeNlattrTcActVlanCb, mnlAttrParseNested, parse_known known fun _ _ _ => rfl,
    bind, Except.bind, parms, presentAttr, read, id, pure, Except.pure, positive]

/-- An encoded redirection is accepted and changes nothing. -/
theorem decodeNlattrTcActMirredCb_tceRedirect (ifidx : UInt32) (rule : TcRule) :
    decodeNlattrTcActMirredCb (some (encodeAll
      [mnlAttrPut 2 (tcGen tcActStolen ++ (le 4 1 ++ le 4 ifidx.toNat))])) rule = .ok rule := by
  have known : Known tcaMirredAttrTypes
      [mnlAttrPut 2 (tcGen tcActStolen ++ (le 4 1 ++ le 4 ifidx.toNat))] := by
    simp [Known, mnlAttrPut, Attr.Fits, Attr.type, tcaMirredAttrTypes, mnlAttrValidate]
  have parms : tableOf [mnlAttrPut 2 (tcGen tcActStolen ++ (le 4 1 ++ le 4 ifidx.toNat))] 2 =
    some (tcGen tcActStolen ++ (le 4 1 ++ le 4 ifidx.toNat)) := rfl
  have read : readAt (tcGen tcActStolen ++ (le 4 1 ++ le 4 ifidx.toNat)) 20 4 = .ok 1 :=
    readAt_le (tcGen tcActStolen) (le 4 ifidx.toNat) rfl (by simp) (by decide)
  simp [decodeNlattrTcActMirredCb, mnlAttrParseNested, parse_known known fun _ _ _ => rfl,
    bind, Except.bind, parms, presentAttr, read, pure, Except.pure]

section Pedit

/-- Four bytes are written back as the word that was read from them. -/
theorem wordBytes (bytes : Bytes) (four : bytes.length = 4) :
    le 4 (UInt32.ofNat (leNat bytes)).toNat = bytes := by
  have bound := leNat_lt bytes
  rw [four] at bound
  rw [UInt32.toNat_ofNat_of_lt' (by simpa using bound), ← four, le_leNat]

/-- Twelve bytes of addresses are read back word by word. -/
theorem lladdrBytes_words (r : TcRule) :
    le 4 (r.lladdrRaw 0).toNat ++ (le 4 (r.lladdrRaw 1).toNat ++ le 4 (r.lladdrRaw 2).toNat) =
      r.lladdrBytes := by
  have length : r.lladdrBytes.length = 12 := by simp [TcRule.lladdrBytes]
  simp only [TcRule.lladdrRaw]
  rw [wordBytes _ (by simp [length]), wordBytes _ (by simp [length]),
    wordBytes _ (by simp [length])]
  simp only [Nat.mul_zero, List.drop_zero, Nat.mul_one]
  have last : (r.lladdrBytes.drop (4 * 2)).take 4 = r.lladdrBytes.drop 8 :=
    List.take_of_length_le (by simp [length])
  rw [last, show 8 = 4 + 4 from rfl, ← List.drop_drop, List.take_append_drop, List.take_append_drop]

/-- The addresses are what their bytes say. -/
theorem lladdrBytes_inj {r s : TcRule} (same : r.lladdrBytes = s.lladdrBytes) :
    r.dst = s.dst ∧ r.src = s.src := by
  obtain ⟨dst, src⟩ := List.append_inj same (by simp)
  have read : ∀ x y : Lladdr, be 6 x.toNat = be 6 y.toNat → x = y := fun x y equal => by
    have numbers := congrArg beNat equal
    rw [beNat_be, beNat_be, Nat.mod_eq_of_lt (by have := x.isLt; omega),
      Nat.mod_eq_of_lt (by have := y.isLt; omega)] at numbers
    exact BitVec.eq_of_toNat_eq numbers
  exact ⟨read _ _ dst, read _ _ src⟩

/-- A write to a word replaces its four bytes. -/
theorem lladdrBytes_setLladdrRaw (r : TcRule) {i : Nat} (bound : i < 3) (word : UInt32) :
    (r.setLladdrRaw i word).lladdrBytes =
      r.lladdrBytes.take (4 * i) ++ (le 4 word.toNat ++ r.lladdrBytes.drop (4 * i + 4)) := by
  have length : r.lladdrBytes.length = 12 := by simp [TcRule.lladdrBytes]
  have kept : ∀ bytes : Bytes, bytes.length = 6 →
      be 6 (BitVec.ofNat 48 (beNat bytes)).toNat = bytes := fun bytes six => by
    have small : beNat bytes < 2 ^ 48 := by
      have := leNat_lt bytes.reverse
      rw [List.length_reverse, six] at this
      exact this
    rw [BitVec.toNat_ofNat, Nat.mod_eq_of_lt small]
    conv_lhs => rw [← six, be_beNat]
  simp only [TcRule.lladdrBytes, TcRule.setLladdrRaw] at length ⊢
  generalize spliced : List.take (4 * i) (be 6 r.dst.toNat ++ be 6 r.src.toNat) ++
    (le 4 word.toNat ++ List.drop (4 * i + 4) (be 6 r.dst.toNat ++ be 6 r.src.toNat)) = bytes
  have twelve : bytes.length = 12 := by
    rw [← spliced]
    simp only [List.length_append, List.length_take, List.length_drop, length_le, length_be]
    omega
  rw [kept _ (by simp [twelve]), kept _ (by simp [twelve]), List.take_append_drop]

/-- Writing the words of one rule's addresses into another one copies the addresses. -/
theorem setLladdrRaw_words (rule r : TcRule) :
    ((rule.setLladdrRaw 0 (r.lladdrRaw 0)).setLladdrRaw 1 (r.lladdrRaw 1)).setLladdrRaw 2
      (r.lladdrRaw 2) = { rule with dst := r.dst, src := r.src } := by
  have same : (((rule.setLladdrRaw 0 (r.lladdrRaw 0)).setLladdrRaw 1 (r.lladdrRaw 1)).setLladdrRaw 2
      (r.lladdrRaw 2)).lladdrBytes = r.lladdrBytes := by
    have length : rule.lladdrBytes.length = 12 := by simp [TcRule.lladdrBytes]
    rw [lladdrBytes_setLladdrRaw _ (by decide), lladdrBytes_setLladdrRaw _ (by decide),
      lladdrBytes_setLladdrRaw _ (by decide), ← lladdrBytes_words r]
    simp [List.take_append, List.drop_append, length, List.take_of_length_le,
      List.drop_eq_nil_of_le]
  have others : ∀ (x : TcRule) i word,
      { x.setLladdrRaw i word with dst := r.dst, src := r.src } =
        { x with dst := r.dst, src := r.src } := fun _ _ _ => rfl
  obtain ⟨dst, src⟩ := lladdrBytes_inj same
  rw [← others rule 0 (r.lladdrRaw 0), ← others _ 1 (r.lladdrRaw 1),
    ← others _ 2 (r.lladdrRaw 2)]
  generalize ((rule.setLladdrRaw 0 (r.lladdrRaw 0)).setLladdrRaw 1 (r.lladdrRaw 1)).setLladdrRaw 2
    (r.lladdrRaw 2) = written at dst src ⊢
  rw [← dst, ← src]

/-- A key is read where it lies in the selector. -/
theorem peditKeyAt_bytes {sel : Bytes} (before after : Bytes) (key : PeditKey) {i : Nat}
    (split : sel = before ++ (key.bytes ++ after)) (place : before.length = 24 + 24 * i) :
    peditKeyAt sel i = .ok key := by
  have mask : readAt sel (24 + 24 * i) 4 = .ok key.mask.toNat :=
    readAt_le before _ (by rw [split, PeditKey.bytes, List.append_assoc]) place
      (by have := key.mask.toNat_lt; omega)
  have val : readAt sel (24 + 24 * i + 4) 4 = .ok key.val.toNat :=
    readAt_le (before ++ le 4 key.mask.toNat) _
      (by rw [split, PeditKey.bytes]; simp only [List.append_assoc]; rfl) (by simp [place])
      (by have := key.val.toNat_lt; omega)
  have off : readAt sel (24 + 24 * i + 8) 4 = .ok key.off.toNat :=
    readAt_le (before ++ (le 4 key.mask.toNat ++ le 4 key.val.toNat)) _
      (by rw [split, PeditKey.bytes]; simp only [List.append_assoc]; rfl) (by simp [place])
      (by have := key.off.toNat_lt; omega)
  simp [peditKeyAt, mask, val, off, bind, Except.bind, pure, Except.pure]

/-- The keys of an encoded selector. -/
theorem peditKeyAt_tcePeditSel (tcr : TcRule) :
    (∀ i < 3, peditKeyAt (tcePeditSel tcr) i = .ok (tcePeditLladdrKey tcr i)) ∧
      peditKeyAt (tcePeditSel tcr) 3 = .ok (tcePeditTtlKey tcr.afAddr.af) := by
  let head := tcGen tcActPipe ++ [4, 0, 0, 0]
  let k := fun i => (tcePeditLladdrKey tcr i).bytes
  have first : peditKeyAt (tcePeditSel tcr) 0 = .ok (tcePeditLladdrKey tcr 0) :=
    peditKeyAt_bytes head _ _ (by simp only [tcePeditSel, head, List.append_assoc]; rfl)
      (by simp [head])
  have second : peditKeyAt (tcePeditSel tcr) 1 = .ok (tcePeditLladdrKey tcr 1) :=
    peditKeyAt_bytes (head ++ k 0) _ _
      (by simp only [tcePeditSel, head, k, List.append_assoc]; rfl) (by simp [head, k])
  have third : peditKeyAt (tcePeditSel tcr) 2 = .ok (tcePeditLladdrKey tcr 2) :=
    peditKeyAt_bytes (head ++ (k 0 ++ k 1)) _ _
      (by simp only [tcePeditSel, head, k, List.append_assoc]; rfl) (by simp [head, k])
  refine ⟨fun i bound => ?_, peditKeyAt_bytes (head ++ (k 0 ++ (k 1 ++ k 2))) [] _
      (by simp only [tcePeditSel, head, k, List.append_assoc, List.append_nil])
      (by simp [head, k])⟩
  interval_cases i
  · exact first
  · exact second
  · exact third

/-- An encoded extended key fills the next entry. -/
theorem decodePeditKeyEx_tcePeditKeyEx (cmd htype : UInt16) {nkeys : Nat}
    {keysEx : List MPeditKeyEx} (room : keysEx.length < nkeys) :
    decodePeditKeyEx nkeys keysEx (tcePeditKeyEx cmd (some htype)) =
      .ok (keysEx ++ [⟨htype, cmd⟩]) := by
  have known : Known tcaPeditKeyExAttrTypes [mnlAttrPutU16 2 cmd, mnlAttrPutU16 1 htype] := by
    simp [Known, mnlAttrPutU16, mnlAttrPut, Attr.Fits, Attr.type, tcaPeditKeyExAttrTypes,
      mnlAttrValidate]
  have payload : (tcePeditKeyEx cmd (some htype)).payload =
    encodeAll [mnlAttrPutU16 2 cmd, mnlAttrPutU16 1 htype] := rfl
  have first : tableOf [mnlAttrPutU16 2 cmd, mnlAttrPutU16 1 htype] 1 =
    some (le 2 htype.toNat) := rfl
  have second : tableOf [mnlAttrPutU16 2 cmd, mnlAttrPutU16 1 htype] 2 =
    some (le 2 cmd.toNat) := rfl
  simp only [decodePeditKeyEx, payload, parse_known known fun _ _ _ => rfl, bind, Except.bind,
    first, second, mnlAttrGetU16_le, require, if_pos room, pure, Except.pure]

/-- The extended keys of an encoded selector. -/
theorem decodeNlattrTcActPeditKeysEx_tcePedit (htype : UInt16) :
    decodeNlattrTcActPeditKeysEx (encodeAll [tcePeditKeyEx 0 (some 1), tcePeditKeyEx 0 (some 1),
      tcePeditKeyEx 0 (some 1), tcePeditKeyEx 1 (some htype)]) 4 =
      .ok [⟨1, 0⟩, ⟨1, 0⟩, ⟨1, 0⟩, ⟨htype, 1⟩] := by
  have fits : ∀ cmd h, (tcePeditKeyEx cmd (some h)).Fits := fun cmd h => by
    simp [Attr.Fits, tcePeditKeyEx, mnlAttrNest, mnlAttrPutU16, mnlAttrPut, align]
  rw [decodeNlattrTcActPeditKeysEx, mnlAttrParse_encodeAll (by simp [fits])]
  simp only [List.foldlM_cons, List.foldlM_nil, bind, Except.bind]
  rw [decodePeditKeyEx_tcePeditKeyEx _ _ (by decide)]
  dsimp only
  rw [decodePeditKeyEx_tcePeditKeyEx _ _ (by decide)]
  dsimp only
  rw [decodePeditKeyEx_tcePeditKeyEx _ _ (by decide)]
  dsimp only
  rw [decodePeditKeyEx_tcePeditKeyEx _ _ (by decide)]
  rfl

/-- The offset of an address word is aligned, lies in the addresses and names the word. -/
theorem lladdrOffset : ∀ i < 3, (UInt32.ofNat i <<< 2) % 4 = 0 ∧ UInt32.ofNat i <<< 2 ≤ 8 ∧
    ((UInt32.ofNat i <<< 2) >>> 2).toNat = i := by
  decide

/-- The decoded addresses and TTL change of an encoded `pedit`. -/
theorem decodeNlattrTcActPeditCb_tcePedit {tcr : TcRule} {htype : UInt16}
    (family : tcePeditTtlHtype tcr.afAddr.af = some htype) (rule : TcRule) :
    decodeNlattrTcActPeditCb (some (encodeAll [
        mnlAttrNest 5 [tcePeditKeyEx 0 (some 1), tcePeditKeyEx 0 (some 1),
          tcePeditKeyEx 0 (some 1), tcePeditKeyEx 1 (tcePeditTtlHtype tcr.afAddr.af)],
        mnlAttrPut 4 (tcePeditSel tcr)])) rule =
      .ok { (rule.addTraits haveLladdr).addTraits haveTtlDec with
        dst := tcr.dst, src := tcr.src } := by
  rw [family]
  generalize keys : [tcePeditKeyEx 0 (some 1), tcePeditKeyEx 0 (some 1),
    tcePeditKeyEx 0 (some 1), tcePeditKeyEx 1 (some htype)] = keyAttrs
  have short : (encodeAll keyAttrs).length = 80 := by
    simp [← keys, tcePeditKeyEx, mnlAttrNest, mnlAttrPutU16, mnlAttrPut, align]
  have known : Known tcaPeditAttrTypes [mnlAttrNest 5 keyAttrs, mnlAttrPut 4 (tcePeditSel tcr)] := by
    simp [Known, mnlAttrNest, mnlAttrPut, Attr.Fits, Attr.type, tcaPeditAttrTypes,
      mnlAttrValidate, short]
  have keysEx := decodeNlattrTcActPeditKeysEx_tcePedit htype
  rw [keys] at keysEx
  have sel : tableOf [mnlAttrNest 5 keyAttrs, mnlAttrPut 4 (tcePeditSel tcr)] 4 =
    some (tcePeditSel tcr) := rfl
  have keysAttr : tableOf [mnlAttrNest 5 keyAttrs, mnlAttrPut 4 (tcePeditSel tcr)] 5 =
      some (encodeAll keyAttrs) := by
    simp [tableOf, AttrTable.set, mnlAttrPut, mnlAttrNest, Attr.type]
  have nkeys : readAt (tcePeditSel tcr) 20 1 = .ok 4 :=
    readAt_le (tcGen tcActPipe) _ rfl (by simp) (by decide)
  have htypes : htype = 2 ∨ htype = 3 := by
    unfold tcePeditTtlHtype at family
    split at family
    · exact .inl (Option.some.inj family).symm
    · split at family
      · exact .inr (Option.some.inj family).symm
      · cases family
  have lladdr : ∀ (r : TcRule) i, i < 3 → decodePeditKey (tcePeditSel tcr) i ⟨1, 0⟩ r =
      .ok (some ((r.addTraits haveLladdr).setLladdrRaw i (tcr.lladdrRaw i))) := by
    intro r i bound
    obtain ⟨aligned, small, word⟩ := lladdrOffset i bound
    have key := (peditKeyAt_tcePeditSel tcr).1 i bound
    have place : (tcePeditLladdrKey tcr i).off = UInt32.ofNat i <<< 2 := rfl
    rw [decodePeditKey, if_pos rfl, if_neg (by simp), key, ok_bind, place,
      if_neg (by simp [aligned, small]), word]
    simp [tcePeditLladdrKey, TcRule.addTraits, TcRule.setLladdrRaw, TcRule.lladdrBytes, pure,
      Except.pure]
  have ttl : ∀ (r : TcRule), decodePeditKey (tcePeditSel tcr) 3 ⟨htype, 1⟩ r =
      .ok (some (r.addTraits haveTtlDec)) := by
    intro r
    rcases htypes with rfl | rfl <;> simp [decodePeditKey]
  have commute : ∀ (r : TcRule) i word t,
      (r.setLladdrRaw i word).addTraits t = (r.addTraits t).setLladdrRaw i word :=
    fun _ _ _ _ => rfl
  simp only [decodeNlattrTcActPeditCb, mnlAttrParseNested,
    parse_known known fun _ _ _ => rfl, bind, Except.bind, sel, keysAttr, presentAttr, nkeys, keysEx]
  simp [decodePeditKeys, bind, Except.bind, lladdr, ttl]
  simp only [commute, setLladdrRaw_words]
  simp [TcRule.addTraits, UInt32.or_assoc]

end Pedit

section Words

/-- The IPv4 mask of a length has that many leading ones. -/
theorem countOnesLoop_tceIp4Mask : ∀ n < 33, 0 < n →
    countOnesLoop (le 4 (tceIp4Mask (UInt8.ofNat n)).toNat) 0 = some (UInt8.ofNat n) := by
  decide

/-- The IPv6 mask of a length has that many leading ones. -/
theorem countOnesLoop_tceBuildIpv6Mask : ∀ n < 129,
    countOnesLoop (tceBuildIpv6Mask (UInt8.ofNat n)) 0 = some (UInt8.ofNat n) := by
  decide

/-- The upper half of the packed word is the priority. -/
theorem prio_tcHMake (prio : UInt16) (min : UInt32) :
    (tcHMaj (tcHMake (prio.toUInt32 <<< 16) min) >>> 16).toUInt16 = prio := by
  apply UInt16.toBitVec_inj.mp
  simp only [tcHMaj, tcHMake]
  ext i bound
  interval_cases i <;> simp

/-- A goto action is told from its chain by the four high bits. -/
theorem gotoChain_split {target : UInt32} (bound : target < 0x10000000) :
    (tcActGotoChain ||| target) &&& ~~~0x0FFFFFFF = tcActGotoChain ∧
    (tcActGotoChain ||| target) &&& 0x0FFFFFFF = target := by
  have small : target.toNat < 2 ^ 28 := by simpa using UInt32.lt_iff_toNat_lt.mp bound
  have high : ∀ i (hi : i < 32), 28 ≤ i → target.toBitVec[i] = false := fun i hi above => by
    rw [← BitVec.getLsbD_eq_getElem, BitVec.getLsbD]
    exact Nat.testBit_lt_two_pow (lt_of_lt_of_le small (Nat.pow_le_pow_right (by decide) above))
  constructor <;>
  · apply UInt32.toBitVec_inj.mp
    ext i hi
    simp only [tcActGotoChain, UInt32.toBitVec_and, UInt32.toBitVec_or, UInt32.toBitVec_not,
      BitVec.getElem_and, BitVec.getElem_or, BitVec.getElem_not]
    by_cases above : 28 ≤ i
    · rw [high i hi above]
      interval_cases i <;> simp
    · have low : i < 28 := by omega
      clear above
      interval_cases i <;> simp

/-- An IPv4 address is read back from its word. -/
theorem addrAt_sAddr (addr : SomeInAddr) :
    addrAt (le 4 (sAddr addr).toNat) 4 = .ok (v4Part addr) := by
  have small := addr.isLt
  have bytes : le 4 (sAddr addr).toNat = be 4 (addr.toNat / 256 ^ 12) := by
    rw [sAddr, take_be 4 12, wordBytes _ (by simp)]
  have high : addr.toNat / 256 ^ 12 < 256 ^ 4 := by omega
  rw [bytes, addrAt, require, if_pos (by simp)]
  simp only [bind, Except.bind, pure, Except.pure, Except.ok.injEq]
  rw [List.take_of_length_le (by simp), beNat, List.reverse_append, List.reverse_replicate,
    leNat_replicate_append, ← beNat, beNat_be, Nat.mod_eq_of_lt high]
  apply BitVec.eq_of_toNat_eq
  simp only [v4Part, BitVec.toNat_ofNat, BitVec.toNat_shiftLeft, BitVec.toNat_ushiftRight,
    Nat.shiftLeft_eq, Nat.shiftRight_eq_div_pow]
  rw [Nat.mul_comm, show 16 - 4 = 12 from rfl, show (256 : Nat) ^ 12 = 2 ^ 96 from rfl]

/-- An IPv6 address is read back from its bytes. -/
theorem addrAt_be (addr : SomeInAddr) : addrAt (be 16 addr.toNat) 16 = .ok addr := by
  have small := addr.isLt
  rw [addrAt, require, if_pos (by simp)]
  simp only [bind, Except.bind, pure, Except.pure, Except.ok.injEq]
  rw [List.take_of_length_le (by simp), Nat.sub_self, List.replicate_zero, List.append_nil,
    beNat_be, Nat.mod_eq_of_lt (by omega)]
  simp

end Words

section Flower

/-- The attributes at the start of the options, for one family. -/
def flowerHead (flags : UInt32) (ethType : UInt16) : List Attr :=
  [mnlAttrPutU32 22 flags, mnlAttrPutU16 25 (htons ethType), mnlAttrPutU16 8 (htons ethType)]

/-- The Ethernet type of a family. -/
def ethTypeOf (af : UInt8) : UInt16 := if af = afInet then ethPIp else ethPIpv6

/-- The size of the attributes at the start. -/
theorem length_flowerHead (flags : UInt32) (ethType : UInt16) :
    (encodeAll (flowerHead flags ethType)).length = 24 := by
  simp [flowerHead, mnlAttrPutU32, mnlAttrPutU16, align]

/-- The attributes at the start are known. -/
theorem flowerHead_known (flags : UInt32) (ethType : UInt16) :
    Known tcFlowerAttrTypes (flowerHead flags ethType) := by
  simp [Known, flowerHead, mnlAttrPutU32, mnlAttrPutU16, mnlAttrPut, Attr.Fits, Attr.type,
    tcFlowerAttrTypes, mnlAttrValidate]

/-- Encoding for the loopback starts with the flags and the two Ethernet types. -/
theorem tceNewFlowerRule_loopback {tcr : TcRule}
    (family : tcr.afAddr.af = afInet ∨ tcr.afAddr.af = afInet6) :
    tceNewFlowerRule tcr true = .ok (flowerHead tcr.flowerFlags (ethTypeOf tcr.afAddr.af)) := by
  rcases family with v4 | v6
  · simp [tceNewFlowerRule, tceFlowerSetEthType, v4, bind, Except.bind, pure, Except.pure,
      flowerHead, ethTypeOf]
  · simp [tceNewFlowerRule, tceFlowerSetEthType, v6, bind, Except.bind, pure, Except.pure,
      flowerHead, ethTypeOf, afInet, afInet6]

/-- What `decode_flower` makes of the match attributes after the actions. -/
theorem decodeFlowerMatch_head {tb : AttrTable} (flags : UInt32) {af : UInt8} (ttl : Bool)
    (family : af = afInet ∨ af = afInet6) (flagsAttr : tb 22 = some (le 4 flags.toNat))
    (ttlAttr : tb 75 = if ttl then some (le 1 1) else none)
    (vlanType : tb 25 = some (le 2 (htons (ethTypeOf af)).toNat))
    (ethType : tb 8 = some (le 2 (htons (ethTypeOf af)).toNat)) (rule : TcRule) :
    decodeFlowerMatch tb rule =
      let flagged := { rule with flowerFlags := flags }
      let checked := if ttl then flagged.addTraits haveTtlCheck else flagged
      if af = afInet then decodeFlowerAddr (tb 12) (tb 13) afInet 4 checked
      else decodeFlowerAddr (tb 16) (tb 17) afInet6 16 checked := by
  have swapped : htons (htons (ethTypeOf af)) = ethTypeOf af := by
    rcases family with rfl | rfl <;> decide
  have read : readAt (le 1 1) 0 1 = .ok 1 := by decide
  have positive : 0 < ethTypeOf af := by rcases family with rfl | rfl <;> decide
  rw [decodeFlowerMatch, flagsAttr, vlanType, ethType, ttlAttr]
  cases ttl <;>
  · simp only [mnlAttrGetU32_le, mnlAttrGetU16_le, bind, Except.bind, pure, Except.pure, read,
      Option.isSome_some, if_true, Functor.map, Except.map, swapped, positive, true_and]
    rcases family with rfl | rfl <;> rfl

/-- The options are decoded action by action, then by their match attributes. -/
theorem decodeFlower_options {options acts : List Attr} {rule decoded : TcRule}
    (known : Known tcFlowerAttrTypes options)
    (actsAttr : tableOf options 3 = some (encodeAll acts)) (fits : ∀ a ∈ acts, a.Fits)
    (actions : acts.foldlM decodeNlattrTcActCb rule = .ok decoded) :
    decodeFlower (encodeAll options) rule = decodeFlowerMatch (tableOf options) decoded := by
  simp only [decodeFlower, parse_known known fun _ _ _ => rfl, bind, Except.bind, actsAttr,
    Option.isSome_some, if_true, mnlAttrParseNested, mnlAttrParse_encodeAll fits, actions]

/-- The attributes of a message that installs a filter are known. -/
theorem addAttrs_known (chainNo : UInt32) {attrs : List Attr}
    (short : (encodeAll attrs).length < 65000) :
    Known tcAttrTypes [mnlAttrPutU32 11 chainNo, mnlAttrPutStrz 1 "flower",
      mnlAttrNest 2 attrs] := by
  have nest := nested_valid attrs
  have name : (mnlAttrPutStrz 1 "flower").Fits ∧
    mnlAttrValidate (mnlAttrPutStrz 1 "flower").payload .nulString = true := by decide
  simp only [Known, List.mem_cons, List.not_mem_nil, or_false, forall_eq_or_imp, forall_eq]
  refine ⟨by simp [mnlAttrPutU32, mnlAttrPut, Attr.Fits, Attr.type, tcAttrTypes,
    mnlAttrValidate], ⟨name.1, by decide, by decide, name.2⟩,
    ⟨by simp only [mnlAttrNest]; omega, by simp [mnlAttrNest]⟩, ?_, ?_, ?_⟩ <;>
    simp [mnlAttrNest, Attr.type, tcAttrTypes, nest]

/-- Its chain, its kind and its options. -/
theorem addAttrs_table (chainNo : UInt32) (attrs : List Attr) :
    let table := tableOf [mnlAttrPutU32 11 chainNo, mnlAttrPutStrz 1 "flower", mnlAttrNest 2 attrs]
    table 11 = some (le 4 chainNo.toNat) ∧ table 1 = some (ascii "flower" ++ [0]) ∧
      table 2 = some (encodeAll attrs) := by
  refine ⟨?_, ?_, ?_⟩ <;>
    simp [tableOf, AttrTable.set, mnlAttrPutStrz, mnlAttrPutU32, mnlAttrPut, mnlAttrNest, Attr.type]

/-- The filter message around decoded options. -/
theorem decodeFilter2_add {ifidx chainNo : UInt32} {prio : UInt16} {tcr decoded : TcRule}
    {body : List Attr} (family : tcr.afAddr.af = afInet ∨ tcr.afAddr.af = afInet6)
    (encoded : tcEncodeRuleBody ifidx tcr true = .ok body)
    (short : (encodeAll (flowerHead tcr.flowerFlags (ethTypeOf tcr.afAddr.af) ++ body)).length <
      65000)
    (flower : decodeFlower
      (encodeAll (flowerHead tcr.flowerFlags (ethTypeOf tcr.afAddr.af) ++ body)) {} = .ok decoded)
    (detected : tcRuleSetType (tcRuleDetect decoded).1 (tcRuleDetect decoded).2 = .ok tcr) :
    ∃ nlh, tcEncodeRule ifidx chainNo prio (some tcr) true = .ok nlh ∧
      decodeFilter2 nlh = .ok (some { isDone := true, chainNo, prio, tcr }) := by
  generalize options : flowerHead tcr.flowerFlags (ethTypeOf tcr.afAddr.af) ++ body = attrs at *
  refine ⟨{
    type := rtmNewtfilter
    flags := nlmFRequestAck ||| nlmFExclCreate
    tcm := tceSetTcm ifidx (tcHMake (prio.toUInt32 <<< 16) (htons ethP8021q).toUInt32) true
    attrs := encodeAll [mnlAttrPutU32 11 chainNo, mnlAttrPutStrz 1 "flower", mnlAttrNest 2 attrs] },
    by simp only [tcEncodeRule, tcEncodeAddRule, tceNewFlowerRule_loopback family, encoded, bind,
      Except.bind, pure, Except.pure, options], ?_⟩
  have known := addAttrs_known chainNo short
  obtain ⟨chain, kind, opts⟩ := addAttrs_table chainNo attrs
  have string : mnlAttrGetStr (ascii "flower" ++ [0]) = ascii "flower" := by decide
  have handle : ∀ info, (tceSetTcm ifidx info true).handle = 1 ∧
    (tceSetTcm ifidx info true).info = info := fun _ => ⟨rfl, rfl⟩
  have nonzero : ¬ (1 : UInt32) = 0 := by decide
  simp only [decodeFilter2, tryDecodeFilter, handle, nonzero, if_false, require, if_true,
    parse_known known fun _ _ _ => rfl, chain, kind, opts, string, flower, detected, decoding,
    mnlAttrGetU32_le, Except.mapError, bind, Except.bind, pure, Except.pure, prio_tcHMake]

/-- Options with one list of actions, and with match attributes of other types than those of
the head. -/
theorem decodeFlower_body {af : UInt8} (flags : UInt32) (ttl : Bool) (extra : List Attr)
    {acts : List Attr} {decoded : TcRule} (family : af = afInet ∨ af = afInet6)
    (known : Known tcFlowerAttrTypes extra)
    (types : ∀ type, type = 3 ∨ type = 22 ∨ type = 25 ∨ type = 8 → tableOf extra type = none)
    (ttlAttr : tableOf extra 75 = if ttl then some (le 1 1) else none)
    (short : (encodeAll acts).length < 60000) (fits : ∀ a ∈ acts, a.Fits)
    (actions : acts.foldlM decodeNlattrTcActCb {} = .ok decoded) :
    decodeFlower (encodeAll (flowerHead flags (ethTypeOf af) ++ (extra ++ [mnlAttrNest 3 acts])))
        {} =
      let flagged := { decoded with flowerFlags := flags }
      let checked := if ttl then flagged.addTraits haveTtlCheck else flagged
      if af = afInet then decodeFlowerAddr (tableOf extra 12) (tableOf extra 13) afInet 4 checked
      else decodeFlowerAddr (tableOf extra 16) (tableOf extra 17) afInet6 16 checked := by
  have nest := nested_valid acts
  have knownActs : Known tcFlowerAttrTypes [mnlAttrNest 3 acts] := by
    simp only [Known, List.mem_singleton, forall_eq, Attr.Fits, payload_mnlAttrNest,
      type_mnlAttrNest acts (show 3 < 16384 by decide)]
    exact ⟨⟨by omega, by simp [mnlAttrNest]⟩, by decide, by decide, nest⟩
  have table : ∀ type, tableOf (flowerHead flags (ethTypeOf af) ++
      (extra ++ [mnlAttrNest 3 acts])) type = ((if type = 3 then some (encodeAll acts)
        else none).or (tableOf extra type)).or (tableOf (flowerHead flags (ethTypeOf af)) type) :=
    fun type => by simp [tableOf_append]
  rw [decodeFlower_options (fun a member => by
      rcases List.mem_append.mp member with inHead | inBody
      · exact flowerHead_known _ _ a inHead
      · rcases List.mem_append.mp inBody with inExtra | inActs
        · exact known a inExtra
        · exact knownActs a inActs)
    (by simp [table]) fits actions,
    decodeFlowerMatch_head flags ttl family
      (by rw [table]; simp [types, flowerHead, mnlAttrPutU32, mnlAttrPutU16])
      (by rw [table]; simp [ttlAttr, flowerHead, mnlAttrPutU32, mnlAttrPutU16])
      (by rw [table]; simp [types, flowerHead, mnlAttrPutU32, mnlAttrPutU16])
      (by rw [table]; simp [types, flowerHead, mnlAttrPutU32, mnlAttrPutU16])]
  simp only [table]
  simp [flowerHead, mnlAttrPutU32, mnlAttrPutU16]

end Flower

/-- The address of a prefix as `build_af_addr` makes it, with a length that its family has. -/
inductive RoutePrefix : AfAddr → Prop
  | v4 {addr : Option SomeInAddr} {maskLen : UInt8} {built : AfAddr} (positive : 0 < maskLen)
      (bound : maskLen ≤ 32) (made : buildAfAddr afInet addr maskLen = .ok built) :
      RoutePrefix built
  | v6 {addr : Option SomeInAddr} {maskLen : UInt8} {built : AfAddr} (bound : maskLen ≤ 128)
      (made : buildAfAddr afInet6 addr maskLen = .ok built) : RoutePrefix built

/-- The default IPv4 prefix: the zero address with length zero. -/
def DefaultPrefix (afAddr : AfAddr) : Prop :=
  ∃ addr : Option SomeInAddr, (∀ a ∈ addr, v4Part a = 0) ∧
    buildAfAddr afInet addr 0 = .ok afAddr

/-- There is one default prefix. -/
theorem DefaultPrefix.eq {afAddr : AfAddr} (dflt : DefaultPrefix afAddr) :
    afAddr = ⟨afInet, 0, 0, 0⟩ := by
  obtain ⟨addr, zero, made⟩ := dflt
  cases addr with
  | none => exact (Except.ok.inj made).symm
  | some a =>
    rw [buildAfAddr, if_pos rfl, zero a rfl] at made
    exact (Except.ok.inj made).symm

/-- The shapes of the rules that the daemon makes. -/
inductive DaemonRule : TcRule → Prop
  | forward {af : UInt8} {vlanId : UInt16} {flowerFlags : UInt32} {dst src : Lladdr}
      {rule : TcRule} (family : af = afInet ∨ af = afInet6) (tagged : vlanId ≠ 0)
      (made : tcRuleSetTypeAndTraits
        { vlanId, flowerFlags, dst, src, afAddr := ⟨af, 0, 0, 0⟩ } .forward = .ok rule) :
      DaemonRule rule
  | routeGoto {afAddr : AfAddr} {flowerFlags gotoTarget : UInt32} {rule : TcRule}
      (chain : gotoTarget < 0x10000000)
      (dst : RoutePrefix afAddr ∨ DefaultPrefix afAddr)
      (made : tcRuleSetTypeAndTraits { flowerFlags, gotoTarget, afAddr } .routeGoto = .ok rule) :
      DaemonRule rule
  | routeTrap {afAddr : AfAddr} {flowerFlags : UInt32} {rule : TcRule} (dst : RoutePrefix afAddr)
      (made : tcRuleSetTypeAndTraits { flowerFlags, afAddr } .routeTrap = .ok rule) :
      DaemonRule rule
  | ttlCheck {af : UInt8} {flowerFlags : UInt32} {rule : TcRule}
      (family : af = afInet ∨ af = afInet6)
      (made : tcRuleSetTypeAndTraits { flowerFlags, afAddr := ⟨af, 0, 0, 0⟩ } .ttlCheck = .ok rule) :
      DaemonRule rule

section Shapes

/-- Only the first four bytes count, however often they are taken. -/
theorem v4Part_v4Part (addr : SomeInAddr) : v4Part (v4Part addr) = v4Part addr := by
  apply BitVec.eq_of_toNat_eq
  simp only [v4Part, BitVec.toNat_shiftLeft, BitVec.toNat_ushiftRight, Nat.shiftLeft_eq,
    Nat.shiftRight_eq_div_pow]
  omega

/-- The mask loop builds one byte a round. -/
theorem length_tceBuildIpv6MaskLoop (count : Nat) (rem : UInt8) (built : Bytes) :
    (tceBuildIpv6MaskLoop count rem built).length = count + built.length := by
  induction count generalizing rem built with
  | zero => simp [tceBuildIpv6MaskLoop]
  | succ count ih =>
    rw [tceBuildIpv6MaskLoop]
    split <;> rw [ih, List.length_cons] <;> omega

/-- What the encoded match attributes of a prefix are decoded to. -/
theorem prefix_decoded {afAddr : AfAddr} (dst : RoutePrefix afAddr) {tcr : TcRule}
    (same : tcr.afAddr = afAddr) (rule : TcRule) :
    let extra := tceMatchPrefix tcr true
    (afAddr.af = afInet ∨ afAddr.af = afInet6) ∧ Known tcFlowerAttrTypes extra ∧
    (∀ type, type = 3 ∨ type = 22 ∨ type = 25 ∨ type = 8 → tableOf extra type = none) ∧
    tableOf extra 75 = none ∧ (encodeAll extra).length ≤ 40 ∧
    (if afAddr.af = afInet then decodeFlowerAddr (tableOf extra 12) (tableOf extra 13) afInet 4 rule
      else decodeFlowerAddr (tableOf extra 16) (tableOf extra 17) afInet6 16 rule) =
      .ok (({ rule with afAddr }.addTraits haveAf).addTraits haveIp) := by
  intro extra
  cases dst with
  | @v4 addr maskLen _ positive bound made =>
    have part : v4Part afAddr.addr = afAddr.addr := by
      cases addr with
      | none => cases made; simp [v4Part]
      | some addr => cases made; exact v4Part_v4Part addr
    obtain ⟨family, len, padding⟩ := buildAfAddr_head made
    have nonzero : maskLen ≠ 0 := fun zero => by simp [zero] at positive
    have attrs : extra = [mnlAttrPutU32 12 (sAddr afAddr.addr),
        mnlAttrPutU32 13 (tceIp4Mask maskLen)] := by
      simp [extra, tceMatchPrefix, same, family, len, nonzero]
    have ones := countOnesLoop_tceIp4Mask maskLen.toNat
      (by have := UInt8.le_iff_toNat_le.mp bound; simpa [Nat.lt_succ_iff] using this)
      (by simpa using UInt8.lt_iff_toNat_lt.mp positive)
    rw [UInt8.ofNat_toNat] at ones
    have back : (⟨afInet, maskLen, v4Part (v4Part afAddr.addr), 0⟩ : AfAddr) = afAddr := by
      rw [part, part, ← family, ← len, ← padding]
    rw [attrs, if_pos family]
    refine ⟨.inl family, ?_, ?_, ?_, ?_, ?_⟩
    · simp [Known, mnlAttrPutU32, mnlAttrPut, Attr.Fits, Attr.type, tcFlowerAttrTypes,
        mnlAttrValidate]
    · rintro type (rfl | rfl | rfl | rfl) <;> simp [mnlAttrPutU32]
    · simp [mnlAttrPutU32]
    · simp [mnlAttrPutU32, align]
    · simp [mnlAttrPutU32, decodeFlowerAddr, countOnes, ones, addrAt_sAddr, buildAfAddr, decoding,
        Except.mapError, bind, Except.bind, pure, Except.pure, back, TcRule.addTraits]
  | @v6 addr maskLen _ bound made =>
    obtain ⟨family, len, padding⟩ := buildAfAddr_head made
    have other : afInet6 ≠ afInet := by decide
    have attrs : extra = [mnlAttrPut 16 (be 16 afAddr.addr.toNat),
        mnlAttrPut 17 (tceBuildIpv6Mask maskLen)] := by
      simp [extra, tceMatchPrefix, same, family, len, other]
    have ones := countOnesLoop_tceBuildIpv6Mask maskLen.toNat
      (by have := UInt8.le_iff_toNat_le.mp bound; simpa [Nat.lt_succ_iff] using this)
    rw [UInt8.ofNat_toNat] at ones
    have sixteen : (tceBuildIpv6Mask maskLen).length = 16 := length_tceBuildIpv6MaskLoop 16 _ _
    have back : (⟨afInet6, maskLen, afAddr.addr, 0⟩ : AfAddr) = afAddr := by
      rw [← family, ← len, ← padding]
    rw [attrs, family, if_neg other]
    refine ⟨.inr rfl, ?_, ?_, ?_, ?_, ?_⟩
    · simp [Known, mnlAttrPut, Attr.Fits, Attr.type, tcFlowerAttrTypes, mnlAttrValidate, sixteen]
    · rintro type (rfl | rfl | rfl | rfl) <;> simp
    · simp
    · simp [align, sixteen]
    · simp [decodeFlowerAddr, countOnes, ones, addrAt_be, buildAfAddr, decoding, other,
        Except.mapError, bind, Except.bind, pure, Except.pure, back, TcRule.addTraits]

variable {ifidx chainNo : UInt32} {prio : UInt16}

/-- There is a header type for both families. -/
theorem tcePeditTtlHtype_some {af : UInt8} (family : af = afInet ∨ af = afInet6) :
    ∃ htype, tcePeditTtlHtype af = some htype := by
  rcases family with rfl | rfl
  · exact ⟨2, rfl⟩
  · exact ⟨3, rfl⟩

/-- The actions of a single `gact`. -/
theorem gactActions (action : UInt32) (rule : TcRule) :
    let acts := [tceAction 1 "gact" [mnlAttrPut 2 (tcGen action)]]
    (∀ a ∈ acts, a.Fits) ∧ (encodeAll acts).length = 44 ∧
    acts.foldlM decodeNlattrTcActCb rule =
      decodeNlattrTcActGactCb (some (encodeAll [mnlAttrPut 2 (tcGen action)])) rule := by
  have short : (encodeAll [mnlAttrPut 2 (tcGen action)]).length < 65000 := by simp [align]
  have size : (encodeAll [tceAction 1 "gact" [mnlAttrPut 2 (tcGen action)]]).length = 44 := by
    simp [tceAction, mnlAttrPutStrz, align, ascii]
  refine ⟨?_, size, ?_⟩
  · simp [Attr.Fits, tceAction, mnlAttrNest, mnlAttrPutStrz, mnlAttrPut, align, ascii]
  · rw [List.foldlM_cons, decodeNlattrTcActCb_tceAction (.head _) short]
    cases decodeNlattrTcActGactCb (some (encodeAll [mnlAttrPut 2 (tcGen action)])) rule <;> rfl

/-- A trap is decoded as a trap. -/
theorem decodeNlattrTcActGactCb_trap (rule : TcRule) :
    decodeNlattrTcActGactCb (some (encodeAll [mnlAttrPut 2 (tcGen tcActTrap)])) rule =
      .ok (rule.addTraits haveTrap) := by
  rw [decodeNlattrTcActGactCb_tcGen, if_neg (by decide), if_pos rfl]

/-- A goto is decoded as a goto to the same chain. -/
theorem decodeNlattrTcActGactCb_goto {target : UInt32} (bound : target < 0x10000000)
    (rule : TcRule) :
    decodeNlattrTcActGactCb
        (some (encodeAll [mnlAttrPut 2 (tcGen (tcActGotoChain ||| target))])) rule =
      .ok { rule.addTraits haveGoto with gotoTarget := target } := by
  obtain ⟨code, value⟩ := gotoChain_split bound
  rw [decodeNlattrTcActGactCb_tcGen, if_pos code, value]

/-- A rule is decoded as it was encoded: the message, its chain and its priority. -/
def RoundTrips (ifidx chainNo : UInt32) (prio : UInt16) (tcr : TcRule) : Prop :=
  ∃ nlh, tcEncodeRule ifidx chainNo prio (some tcr) true = .ok nlh ∧
    decodeFilter2 nlh = .ok (some { isDone := true, chainNo, prio, tcr })

/-- A TTL check is decoded as it was encoded. -/
theorem roundTrips_ttlCheck {af : UInt8} (family : af = afInet ∨ af = afInet6)
    (flowerFlags : UInt32) :
    RoundTrips ifidx chainNo prio {
      type := .ttlCheck, flowerFlags, traits := typeTraits .ttlCheck, afAddr := ⟨af, 0, 0, 0⟩ } := by
  obtain ⟨fits, size, actions⟩ := gactActions tcActTrap {}
  rw [decodeNlattrTcActGactCb_trap] at actions
  have flower := decodeFlower_body flowerFlags true [mnlAttrPutU8 75 1, mnlAttrPutU8 76 0xff] family
    (by simp [Known, mnlAttrPutU8, mnlAttrPut, Attr.Fits, Attr.type, tcFlowerAttrTypes,
      mnlAttrValidate])
    (by rintro type (rfl | rfl | rfl | rfl) <;> simp [mnlAttrPutU8])
    (by simp [mnlAttrPutU8]) (by omega) fits actions
  have decoded : decodeFlower (encodeAll (flowerHead flowerFlags (ethTypeOf af) ++
      tceAddTllCheckRule)) {} = .ok {
        flowerFlags, traits := typeTraits .ttlCheck, afAddr := ⟨af, 0, 0, 0⟩ } := by
    refine flower.trans ?_
    have other : ¬ afInet6 = afInet := by decide
    have traits : haveTrap ||| haveTtlCheck ||| haveAf = typeTraits .ttlCheck := by decide
    rcases family with rfl | rfl <;>
      simp [mnlAttrPutU8, decodeFlowerAddr, other, TcRule.addTraits, traits, pure, Except.pure]
  refine decodeFilter2_add family rfl ?_ decoded rfl
  simp [flowerHead, mnlAttrPutU32, mnlAttrPutU16, mnlAttrPutU8, tceAddTllCheckRule,
    tceSimpleGact, size, align]

/-- Encodings of attributes side by side are as long as both. -/
theorem length_encodeAll_append (first second : List Attr) :
    (encodeAll (first ++ second)).length = (encodeAll first).length + (encodeAll second).length := by
  induction first with
  | nil => simp
  | cons a first ih => rw [List.cons_append, length_encodeAll_cons, ih, length_encodeAll_cons]; omega

/-- A trap or a goto is decoded as it was encoded when its match attributes are. -/
theorem roundTrips_gact {tcr acted decoded : TcRule} {action : UInt32}
    (family : tcr.afAddr.af = afInet ∨ tcr.afAddr.af = afInet6)
    (body : tcEncodeRuleBody ifidx tcr true = .ok (tceAddIpGactRule tcr true action))
    (known : Known tcFlowerAttrTypes (tceMatchPrefix tcr true))
    (types : ∀ type, type = 3 ∨ type = 22 ∨ type = 25 ∨ type = 8 →
      tableOf (tceMatchPrefix tcr true) type = none)
    (ttl : tableOf (tceMatchPrefix tcr true) 75 = none)
    (length : (encodeAll (tceMatchPrefix tcr true)).length ≤ 40)
    (actions : decodeNlattrTcActGactCb (some (encodeAll [mnlAttrPut 2 (tcGen action)])) {} =
      .ok acted)
    (decodes : (if tcr.afAddr.af = afInet then
        decodeFlowerAddr (tableOf (tceMatchPrefix tcr true) 12)
          (tableOf (tceMatchPrefix tcr true) 13) afInet 4 { acted with flowerFlags := tcr.flowerFlags }
      else decodeFlowerAddr (tableOf (tceMatchPrefix tcr true) 16)
          (tableOf (tceMatchPrefix tcr true) 17) afInet6 16
          { acted with flowerFlags := tcr.flowerFlags }) = .ok decoded)
    (detected : tcRuleSetType (tcRuleDetect decoded).1 (tcRuleDetect decoded).2 = .ok tcr) :
    RoundTrips ifidx chainNo prio tcr := by
  obtain ⟨fits, size, acts⟩ := gactActions action {}
  have flower := decodeFlower_body tcr.flowerFlags false _ family known types
    (by simp [ttl]) (by omega) fits (acts.trans actions)
  refine decodeFilter2_add family body ?_ (flower.trans decodes) detected
  rw [tceAddIpGactRule, length_encodeAll_append, length_encodeAll_append]
  have head := length_flowerHead tcr.flowerFlags (ethTypeOf tcr.afAddr.af)
  have gact : (encodeAll [tceSimpleGact action]).length = 48 := by
    simp [tceSimpleGact, size, align]
  omega

/-- Traits determine the type. -/
theorem typeTraits_injective {type other : TcRuleType} (some : 0 < typeTraits type)
    (same : typeTraits type = typeTraits other) : type = other := by
  revert some same
  cases type <;> cases other <;> decide

/-- A rule with the traits of a type is detected as that type; a default goto is a goto. -/
theorem tcRuleDetect_traits {rule : TcRule} (type : TcRuleType) (some : 0 < typeTraits type)
    (traits : rule.traits = typeTraits type) :
    tcRuleDetect rule = if type = .routeDftGoto then
      ({ rule with traits := typeTraits .routeGoto }, .routeGoto) else (rule, type) := by
  have listed : type ∈ tcRuleTypes := by cases type <;> decide
  suffices found : ∀ types, type ∈ types → tcRuleDetectLoop rule types = _ from found _ listed
  intro types member
  induction types with
  | nil => cases member
  | cons head types ih =>
    rw [tcRuleDetectLoop]
    split
    · next has =>
      obtain rfl := typeTraits_injective has.1 (has.2.trans traits)
      rfl
    · next none =>
      rcases List.mem_cons.mp member with rfl | later
      · exact absurd ⟨some, traits.symm⟩ none
      · exact ih later

/-- A trap or a goto of a prefix is decoded as it was encoded. -/
theorem roundTrips_prefix {tcr acted : TcRule} {action : UInt32} (dst : RoutePrefix tcr.afAddr)
    (body : tcEncodeRuleBody ifidx tcr true = .ok (tceAddIpGactRule tcr true action))
    (actions : decodeNlattrTcActGactCb (some (encodeAll [mnlAttrPut 2 (tcGen action)])) {} =
      .ok acted)
    (typed : tcr.type = .routeTrap ∨ tcr.type = .routeGoto)
    (traits : acted.traits ||| haveAf ||| haveIp = typeTraits tcr.type)
    (same : .ok tcr = tcRuleSetType { acted with
      flowerFlags := tcr.flowerFlags, afAddr := tcr.afAddr, traits := typeTraits tcr.type } tcr.type) :
    RoundTrips ifidx chainNo prio tcr := by
  obtain ⟨family, known, types, ttl, length, decodes⟩ := prefix_decoded dst rfl
    { acted with flowerFlags := tcr.flowerFlags }
  refine roundTrips_gact family body known types ttl length actions decodes ?_
  have some : 0 < typeTraits tcr.type ∧ tcr.type ≠ .routeDftGoto := by
    rcases typed with trap | goto
    · rw [trap]; decide
    · rw [goto]; decide
  rw [tcRuleDetect_traits tcr.type some.1 traits, if_neg some.2, same]
  simp only [TcRule.addTraits, traits]

/-- A route trap is decoded as it was encoded. -/
theorem roundTrips_routeTrap {afAddr : AfAddr} (dst : RoutePrefix afAddr) (flowerFlags : UInt32) :
    RoundTrips ifidx chainNo prio {
      type := .routeTrap, flowerFlags, traits := typeTraits .routeTrap, afAddr } :=
  roundTrips_prefix dst rfl (decodeNlattrTcActGactCb_trap {}) (.inl rfl)
    (by simp only [TcRule.addTraits]; decide) rfl

/-- A route goto is decoded as it was encoded. -/
theorem roundTrips_routeGoto {afAddr : AfAddr} (dst : RoutePrefix afAddr) (flowerFlags : UInt32)
    {gotoTarget : UInt32} (chain : gotoTarget < 0x10000000) :
    RoundTrips ifidx chainNo prio {
      type := .routeGoto, flowerFlags, gotoTarget, traits := typeTraits .routeGoto, afAddr } :=
  roundTrips_prefix dst rfl (decodeNlattrTcActGactCb_goto chain {}) (.inr rfl)
    (by simp only [TcRule.addTraits]; decide) rfl

/-- The default route is decoded as it was encoded, although its match attributes are left out. -/
theorem roundTrips_default (flowerFlags : UInt32) {gotoTarget : UInt32}
    (chain : gotoTarget < 0x10000000) :
    RoundTrips ifidx chainNo prio {
      type := .routeGoto, flowerFlags, gotoTarget, traits := typeTraits .routeGoto,
      afAddr := ⟨afInet, 0, 0, 0⟩ } := by
  refine roundTrips_gact (.inl rfl) rfl (fun _ member => nomatch member) (fun _ _ => rfl) rfl
    (Nat.zero_le _) (decodeNlattrTcActGactCb_goto chain {}) (if_pos rfl) ?_
  have traits : ({} : TcRule).traits ||| haveGoto ||| haveAf = typeTraits .routeDftGoto := by decide
  simp only [TcRule.addTraits]
  rw [tcRuleDetect_traits .routeDftGoto (by decide) traits]
  rfl

/-- The actions of a forward rule are decoded one after the other. -/
theorem forwardActions {tcr : TcRule} {htype : UInt16} (tagged : tcr.vlanId ≠ 0)
    (family : tcePeditTtlHtype tcr.afAddr.af = some htype) :
    let acts := [tceModifyVlanAction 1 tcr.vlanId, tcePeditAction 2 tcr] ++
      if tcr.afAddr.af = afInet then [tceCsumAction 3, tceRedirectAction ifidx 4]
      else [tceRedirectAction ifidx 3]
    (∀ a ∈ acts, a.Fits) ∧ (encodeAll acts).length < 1000 ∧
    acts.foldlM decodeNlattrTcActCb {} = .ok {
      vlanId := tcr.vlanId, dst := tcr.dst, src := tcr.src
      traits := haveVlanMod ||| haveLladdr ||| haveTtlDec } := by
  have vlan : ∀ rule, decodeNlattrTcActCb rule (tceModifyVlanAction 1 tcr.vlanId) =
      .ok { rule.addTraits haveVlanMod with vlanId := tcr.vlanId } := fun rule => by
    rw [tceModifyVlanAction, decodeNlattrTcActCb_tceAction (.tail _ (.head _))
      (by simp [mnlAttrPutU16, align]), decodeNlattrTcActVlanCb_tceModifyVlan tagged]
  have keysEx : (encodeAll [tcePeditKeyEx 0 (some 1), tcePeditKeyEx 0 (some 1),
      tcePeditKeyEx 0 (some 1), tcePeditKeyEx 1 (tcePeditTtlHtype tcr.afAddr.af)]).length = 80 := by
    simp [tcePeditKeyEx, mnlAttrNest, mnlAttrPutU16, mnlAttrPut, align, family]
  have pedit : ∀ rule, decodeNlattrTcActCb rule (tcePeditAction 2 tcr) =
      .ok { (rule.addTraits haveLladdr).addTraits haveTtlDec with
        dst := tcr.dst, src := tcr.src } := fun rule => by
    rw [tcePeditAction, decodeNlattrTcActCb_tceAction (.tail _ (.tail _ (.head _)))
      (by simp [keysEx, align]), decodeNlattrTcActPeditCb_tcePedit family]
  have csum : ∀ rule, decodeNlattrTcActCb rule (tceCsumAction 3) = .ok rule := fun rule => by
    rw [tceCsumAction, decodeNlattrTcActCb_tceAction
      (.tail _ (.tail _ (.tail _ (.tail _ (.head _))))) (by simp [align])]
    rfl
  have mirred : ∀ rule actNo, decodeNlattrTcActCb rule (tceRedirectAction ifidx actNo) =
      .ok rule := fun rule actNo => by
    rw [tceRedirectAction, decodeNlattrTcActCb_tceAction (.tail _ (.tail _ (.tail _ (.head _))))
      (by simp [align]), decodeNlattrTcActMirredCb_tceRedirect]
  by_cases v4 : tcr.afAddr.af = afInet
  · simp only [v4, if_true, List.cons_append, List.nil_append, List.foldlM_cons, List.foldlM_nil,
      vlan, pedit, csum, mirred, bind, Except.bind]
    refine ⟨?_, ?_, rfl⟩
    · simp [Attr.Fits, tceModifyVlanAction, tcePeditAction, tceCsumAction, tceRedirectAction,
        tceAction, mnlAttrNest, mnlAttrPutStrz, mnlAttrPutU16, mnlAttrPut, align, ascii, keysEx]
    · simp [tceModifyVlanAction, tcePeditAction, tceCsumAction, tceRedirectAction,
        tceAction, mnlAttrPutStrz, mnlAttrPutU16, align, ascii, keysEx]
  · simp only [v4, if_false, List.cons_append, List.nil_append, List.foldlM_cons, List.foldlM_nil,
      vlan, pedit, mirred, bind, Except.bind]
    refine ⟨?_, ?_, rfl⟩
    · simp [Attr.Fits, tceModifyVlanAction, tcePeditAction, tceRedirectAction,
        tceAction, mnlAttrNest, mnlAttrPutStrz, mnlAttrPutU16, mnlAttrPut, align, ascii, keysEx]
    · simp [tceModifyVlanAction, tcePeditAction, tceRedirectAction,
        tceAction, mnlAttrPutStrz, mnlAttrPutU16, align, ascii, keysEx]

/-- A forward rule is decoded as it was encoded. -/
theorem roundTrips_forward {af : UInt8} (family : af = afInet ∨ af = afInet6) {vlanId : UInt16}
    (tagged : vlanId ≠ 0) (flowerFlags : UInt32) (dst src : Lladdr) :
    RoundTrips ifidx chainNo prio {
      type := .forward, vlanId, flowerFlags, traits := typeTraits .forward,
      afAddr := ⟨af, 0, 0, 0⟩, dst, src } := by
  obtain ⟨htype, typed⟩ := tcePeditTtlHtype_some family
  have traits : haveVlanMod ||| haveLladdr ||| haveTtlDec ||| haveAf = typeTraits .forward := by
    decide
  let tcr : TcRule := {
    type := .forward, vlanId, flowerFlags, traits := typeTraits .forward
    afAddr := ⟨af, 0, 0, 0⟩, dst, src }
  obtain ⟨fits, size, actions⟩ : _ ∧ _ ∧ _ := @forwardActions ifidx tcr htype tagged typed
  have flower := decodeFlower_body flowerFlags false [] family
    (fun _ member => nomatch member) (fun _ _ => rfl) rfl (by omega) fits actions
  have decoded : decodeFlower (encodeAll (flowerHead flowerFlags (ethTypeOf af) ++
      tceAddIpForwardRule ifidx tcr)) {} = .ok {
        vlanId, flowerFlags, traits := typeTraits .forward, afAddr := ⟨af, 0, 0, 0⟩, dst, src } := by
    refine flower.trans ?_
    have other : ¬ afInet6 = afInet := by decide
    rcases family with rfl | rfl <;>
      simp [decodeFlowerAddr, other, TcRule.addTraits, traits, pure, Except.pure, tcr]
  refine @decodeFilter2_add _ _ _ tcr _ _ family rfl ?_ decoded ?_
  · have head := length_flowerHead flowerFlags (ethTypeOf af)
    have body : (encodeAll (tceAddIpForwardRule ifidx tcr)).length < 2000 := by
      simp only [tceAddIpForwardRule, length_encodeAll_cons, payload_mnlAttrNest, align,
        length_encodeAll_nil]
      omega
    rw [length_encodeAll_append]
    exact Nat.lt_of_lt_of_le (Nat.add_lt_add_left body _) (by rw [head]; decide)
  · rw [tcRuleDetect_traits .forward (by decide) rfl]
    rfl

end Shapes

/-- A drop message is decoded to its chain and priority. -/
theorem decodeFilter2_drop (ifidx chainNo : UInt32) (prio : UInt16) :
    decodeFilter2 (tcEncodeDropRule ifidx chainNo prio true) =
      .ok (some { isDone := true, chainNo, prio }) := by
  have known : Known tcAttrTypes [mnlAttrPutU32 11 chainNo] := by
    simp [Known, mnlAttrPutU32, mnlAttrPut, Attr.Fits, Attr.type, tcAttrTypes, mnlAttrValidate]
  have kind : tableOf [mnlAttrPutU32 11 chainNo] 1 = none := rfl
  have chain : tableOf [mnlAttrPutU32 11 chainNo] 11 = some (le 4 chainNo.toNat) := rfl
  have deletion : ¬ rtmDeltfilter = rtmNewtfilter := by decide
  have handle : ∀ info, (tceSetTcm ifidx info true).handle = 1 ∧
    (tceSetTcm ifidx info true).info = info := fun _ => ⟨rfl, rfl⟩
  have nonzero : ¬ (1 : UInt32) = 0 := by decide
  simp only [decodeFilter2, tryDecodeFilter, tcEncodeDropRule, handle, nonzero, if_false, require,
    if_true, parse_known known fun _ _ _ => rfl, chain, kind, deletion, mnlAttrGetU32_le,
    bind, Except.bind, pure, Except.pure, prio_tcHMake]

/-- Setting the type and the traits of a rule that has none. -/
theorem tcRuleSetTypeAndTraits_fresh {tcr rule : TcRule} {type : TcRuleType}
    (untyped : tcr.type = .unspec) (plain : tcr.traits = 0)
    (made : tcRuleSetTypeAndTraits tcr type = .ok rule) :
    rule = { tcr with type, traits := typeTraits type } := by
  simp only [tcRuleSetTypeAndTraits, tcRuleSetType, untyped, reduceCtorEq, if_false, if_true, bind,
    Except.bind, plain] at made
  split at made
  · exact (Except.ok.inj made).symm
  · cases made

/-- Every rule of the daemon is decoded as it was encoded. -/
theorem DaemonRule.roundTrips {tcr : TcRule} (daemon : DaemonRule tcr) (ifidx chainNo : UInt32)
    (prio : UInt16) : RoundTrips ifidx chainNo prio tcr := by
  cases daemon with
  | forward family tagged made =>
    rw [tcRuleSetTypeAndTraits_fresh rfl rfl made]
    exact roundTrips_forward family tagged _ _ _
  | routeGoto chain dst made =>
    rw [tcRuleSetTypeAndTraits_fresh rfl rfl made]
    rcases dst with dst | dflt
    · exact roundTrips_routeGoto dst _ chain
    · rw [dflt.eq]
      exact roundTrips_default _ chain
  | routeTrap dst made =>
    rw [tcRuleSetTypeAndTraits_fresh rfl rfl made]
    exact roundTrips_routeTrap dst _
  | ttlCheck family made =>
    rw [tcRuleSetTypeAndTraits_fresh rfl rfl made]
    exact roundTrips_ttlCheck family _

/-- What `tc_encode_rule` writes for the loopback, `decode_filter2` reads back: every rule of the
daemon in all its fields, and the chain and the priority of a dropped rule. -/
theorem decodeFilter2_tcEncodeRule (ifidx chainNo : UInt32) (prio : UInt16) :
    (∀ tcr, DaemonRule tcr → RoundTrips ifidx chainNo prio tcr) ∧
    ∃ nlh tdr, tcEncodeRule ifidx chainNo prio none true = .ok nlh ∧
      decodeFilter2 nlh = .ok (some tdr) ∧ tdr.chainNo = chainNo ∧ tdr.prio = prio :=
  ⟨fun _ daemon => daemon.roundTrips ifidx chainNo prio, _, _, rfl,
    decodeFilter2_drop ifidx chainNo prio, rfl, rfl⟩

/-- A forward rule for IPv6 in chain 5. -/
theorem decodeFilter2_tcEncodeRule_forward :
    DaemonRule {
      type := .forward, vlanId := 42, traits := 0xe1, afAddr := ⟨afInet6, 0, 0, 0⟩
      dst := 0x021122334455, src := 0x02aabbccddee } ∧
    RoundTrips 3 5 1 {
      type := .forward, vlanId := 42, traits := 0xe1, afAddr := ⟨afInet6, 0, 0, 0⟩
      dst := 0x021122334455, src := 0x02aabbccddee } := by
  have daemon : DaemonRule {
      type := .forward, vlanId := 42, traits := 0xe1, afAddr := ⟨afInet6, 0, 0, 0⟩
      dst := 0x021122334455, src := 0x02aabbccddee } := .forward (.inr rfl) (by decide) rfl
  exact ⟨daemon, (decodeFilter2_tcEncodeRule 3 5 1).1 _ daemon⟩

end FlowerRoute
