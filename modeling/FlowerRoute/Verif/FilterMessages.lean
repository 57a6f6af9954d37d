import FlowerRoute.Verif.ForeignFilters
import FlowerRoute.Verif.RoundTrip

/-!
# What filter messages say

Where a filter message is about, what it says of a filter there, and when a callback stops its
decoding.
-/

namespace FlowerRoute

open Tlv Outcome

section Rejections

variable {map : TypeMap} {payload options : Bytes} {a : Attr} {rule : TcRule}

/-- An attribute that a type map knows is valid for it. -/
def AttrValid (map : TypeMap) (a : Attr) : Prop :=
  a.type ≤ map.max → map.type a.type ≠ .unspec → mnlAttrValidate a.payload (map.type a.type) = true

/-- The attributes of an action up to one that is rejected are within the type table. -/
def ActAttrsRejected (a : Attr) : Prop :=
  ∃ attrs, attrs <+: parse a.payload ∧ (∀ attr ∈ attrs, attr.type ≤ tcActAttrTypes.max) ∧
    ¬ ∀ attr ∈ attrs, AttrValid tcActAttrTypes attr

/-- The type map of the options of a kind of action. -/
def ActOptionTypes (kind : Bytes) (map : TypeMap) : Prop :=
  (kind = ascii "gact" ∧ map = tcaGactAttrTypes) ∨ (kind = ascii "vlan" ∧ map = tcaVlanAttrTypes) ∨
    (kind = ascii "pedit" ∧ map = tcaPeditAttrTypes) ∨
      (kind = ascii "mirred" ∧ map = tcaMirredAttrTypes)

/-- An extended key of a `pedit` that is rejected, after keys that are stored. -/
structure PeditKeyRejected (options : Bytes) : Prop where
  own : Valid tcaPeditAttrTypes options
  selector : Holds (attrIn options 4) 21
  key : ∃ before k after, peditExtended (some options) = before ++ k :: after ∧
    before.length ≤ peditNkeys (some options) ∧
    (∀ b ∈ before, Valid tcaPeditKeyExAttrTypes b.payload) ∧ (∀ b ∈ before, PeditEntered b) ∧
    ¬ Valid tcaPeditKeyExAttrTypes k.payload

/-- An action of which a callback rejects an attribute. -/
inductive ActionRejected (a : Attr) : Prop
  | own : ActAttrsRejected a → ActionRejected a
  | options {kind options : Bytes} {map : TypeMap} : Valid tcActAttrTypes a.payload →
      (∀ attr ∈ parse a.payload, attr.type ≤ tcActAttrTypes.max) → actionKind a = some kind →
      attrIn a.payload 2 = some options → ActOptionTypes kind map → ¬ Valid map options →
      ActionRejected a
  | peditKey {options : Bytes} : Valid tcActAttrTypes a.payload →
      (∀ attr ∈ parse a.payload, attr.type ≤ tcActAttrTypes.max) →
      actionKind a = some (ascii "pedit") → attrIn a.payload 2 = some options →
      PeditKeyRejected options → ActionRejected a

/-- The options of a flower filter that are rejected, or one of its actions after others that are
decoded. -/
inductive FlowerRejected (options : Bytes) : Prop
  | own : ¬ Valid tcFlowerAttrTypes options → FlowerRejected options
  | action {before after : List Attr} {a : Attr} : Valid tcFlowerAttrTypes options →
      flowerActions options = before ++ a :: after → (∀ b ∈ before, ActionValid b) →
      (∀ b ∈ before, ActionDecodable b) → ActionRejected a → FlowerRejected options

/-- What comes after a step that stops does not matter. -/
theorem foldlM_stops {σ : Type} {step : σ → Attr → Except Stop σ} {before after : List Attr}
    {start middle : σ} {stop : Stop} (reads : before.foldlM step start = .ok middle)
    (stops : step middle a = .error stop) :
    (before ++ a :: after).foldlM step start = .error stop := by
  rw [List.foldlM_append, reads, ok_bind, List.foldlM_cons, stops]
  rfl

/-- The entry of attributes stops at one that is rejected. -/
theorem attrs_stop {attrs : List Attr} {callback : AttrTable → Attr → Except Stop AttrTable}
    {start : AttrTable} (enters : ∀ tb, ∀ a ∈ attrs, callback tb a = decodeNlattr map tb a)
    (invalid : ¬ ∀ a ∈ attrs, AttrValid map a) :
    attrs.foldlM callback start = .error .callbackError := by
  induction attrs generalizing start with
  | nil => exact absurd (fun _ inside => absurd inside List.not_mem_nil) invalid
  | cons a attrs ih =>
    rw [List.foldlM_cons, enters start a List.mem_cons_self]
    have later : AttrValid map a → ∀ next,
        attrs.foldlM callback next = .error .callbackError := fun good next =>
      ih (fun tb b inside => enters tb b (List.mem_cons_of_mem _ inside))
        fun rest => invalid (List.forall_mem_cons.mpr ⟨good, rest⟩)
    unfold decodeNlattr
    by_cases large : map.max < a.type
    · rw [if_pos large, ok_bind]
      exact later (fun small => absurd small (Nat.not_le.mpr large)) _
    · rw [if_neg large]
      by_cases untyped : map.type a.type = .unspec
      · rw [if_pos untyped, ok_bind]
        exact later (fun _ typed => absurd untyped typed) _
      · rw [if_neg untyped]
        by_cases good : mnlAttrValidate a.payload (map.type a.type) = true
        · rw [if_pos good, ok_bind]
          exact later (fun _ _ => good) _
        · rw [if_neg good]
          rfl

/-- Attributes of which one is invalid are rejected. -/
theorem parse_invalid (invalid : ¬ Valid map payload) :
    mnlAttrParse payload (decodeNlattr map) AttrTable.empty = .error .callbackError :=
  attrs_stop (fun _ _ _ => rfl) invalid

/-- So are those of options. -/
theorem parseNested_invalid (invalid : ¬ Valid map options) :
    mnlAttrParseNested (some options) (decodeNlattr map) AttrTable.empty = .error .callbackError :=
  parse_invalid invalid

/-- The callback of an action stops at its own attributes. -/
theorem ActAttrsRejected.stops (rejected : ActAttrsRejected a) :
    decodeNlattrTcActCb rule a = .error .callbackError := by
  obtain ⟨attrs, ⟨others, split⟩, small, invalid⟩ := rejected
  have enters : ∀ tb, ∀ attr ∈ attrs,
      decodeNlattrTcActAttrCb tb attr = decodeNlattr tcActAttrTypes tb attr := by
    intro tb attr inside
    unfold decodeNlattrTcActAttrCb
    rw [require, if_pos (small attr inside), ok_bind]
  unfold decodeNlattrTcActCb mnlAttrParse
  rw [← split, List.foldlM_append, attrs_stop enters invalid]
  rfl

/-- The callback of a kind stops at options that are rejected. -/
theorem options_stop {kind : Bytes} (types : ActOptionTypes kind map)
    (invalid : ¬ Valid map options) :
    (match tcActHelpers.find? fun helper => kind = ascii helper.1 with
      | some helper => helper.2 (some options) rule
      | none => .ok rule) = .error .callbackError := by
  rcases types with ⟨rfl, rfl⟩ | ⟨rfl, rfl⟩ | ⟨rfl, rfl⟩ | ⟨rfl, rfl⟩
  · rw [@tcActHelpers_named "gact" decodeNlattrTcActGactCb (by simp [tcActHelpers])]
    dsimp only
    rw [decodeNlattrTcActGactCb, parseNested_invalid invalid]
    rfl
  · rw [@tcActHelpers_named "vlan" decodeNlattrTcActVlanCb (by simp [tcActHelpers])]
    dsimp only
    rw [decodeNlattrTcActVlanCb, parseNested_invalid invalid]
    rfl
  · rw [@tcActHelpers_named "pedit" decodeNlattrTcActPeditCb (by simp [tcActHelpers])]
    dsimp only
    rw [decodeNlattrTcActPeditCb, parseNested_invalid invalid]
    rfl
  · rw [@tcActHelpers_named "mirred" decodeNlattrTcActMirredCb (by simp [tcActHelpers])]
    dsimp only
    rw [decodeNlattrTcActMirredCb, parseNested_invalid invalid]
    rfl

/-- The callback of a `pedit` stops at an extended key. -/
theorem PeditKeyRejected.stops (rejected : PeditKeyRejected options) :
    decodeNlattrTcActPeditCb (some options) rule = .error .callbackError := by
  obtain ⟨own, ⟨sel, selector, size⟩, before, k, after, split, room, valid, entered, invalid⟩ :=
    rejected
  obtain ⟨tb, parsed, entries⟩ := own.parse fun _ _ _ => rfl
  have first : tb 4 = some sel := (entries 4 (by decide) (by decide)).trans selector
  have second : tb 5 = attrIn options 5 := entries 5 (by decide) (by decide)
  have parsed : mnlAttrParseNested (some options) (decodeNlattr tcaPeditAttrTypes)
      AttrTable.empty = .ok tb := parsed
  unfold decodeNlattrTcActPeditCb
  rw [parsed, ok_bind, first, second]
  cases extended : attrIn options 5 with
  | none =>
    have empty : peditExtended (some options) = [] := by
      simp [peditExtended, actionOption, extended, parse, parseUpTo]
    rw [empty] at split
    cases before <;> cases split
  | some keys =>
    have keys_eq : peditExtended (some options) = parse keys := by
      simp [peditExtended, actionOption, extended]
    have count : readAt sel 20 1 = .ok (peditNkeys (some options)) := by
      rw [readAt_fits (by exact size)]
      simp [peditNkeys, peditSel, actionOption, selector]
    have stops : decodePeditKeyEx (peditNkeys (some options)) ([] ++ before.map peditEntry) k =
        .error .callbackError := by
      rw [decodePeditKeyEx, parse_invalid invalid]
      rfl
    have stored : before.foldlM (decodePeditKeyEx (peditNkeys (some options))) [] =
        .ok ([] ++ before.map peditEntry) :=
      peditKeysEx_stores valid (by simpa using room) entered
    simp only [presentAttr, ok_bind, count]
    unfold decodeNlattrTcActPeditKeysEx mnlAttrParse
    rw [← keys_eq, split, foldlM_stops stored stops]
    rfl

/-- The callback of actions stops at one that is rejected. -/
theorem ActionRejected.stops (rejected : ActionRejected a) :
    decodeNlattrTcActCb rule a = .error .callbackError := by
  cases rejected with
  | own rejected => exact rejected.stops
  | options own small kind options types invalid =>
    rw [act_helper own small, kind, options]
    exact options_stop types invalid
  | peditKey own small kind options rejected =>
    rw [act_helper own small, kind, options]
    dsimp only
    rw [@tcActHelpers_named "pedit" decodeNlattrTcActPeditCb (by simp [tcActHelpers])]
    exact rejected.stops

/-- The decoding of a flower filter stops. -/
theorem FlowerRejected.stops (rejected : FlowerRejected options) (unsettled : Unsettled rule) :
    decodeFlower options rule = .error .callbackError := by
  cases rejected with
  | own invalid =>
    unfold decodeFlower
    rw [parse_invalid invalid]
    rfl
  | @action before after a valid split good decodable rejected =>
    obtain ⟨tb, parsed, entries⟩ := valid.parse fun _ _ _ => rfl
    obtain ⟨middle, reads, -⟩ := acts_read good decodable unsettled
    have third : tb 3 = attrIn options 3 := entries 3 (by decide) (by decide)
    rw [decodeFlower_eq parsed, third]
    unfold flowerActions at split
    cases present : attrIn options 3 with
    | none =>
      rw [present] at split
      cases before <;> cases split
    | some acts =>
      rw [present] at split
      have stops : (parse acts).foldlM decodeNlattrTcActCb rule = .error .callbackError := by
        rw [show parse acts = before ++ a :: after from split]
        exact foldlM_stops reads rejected.stops
      simp only [Option.isSome_some, if_true, mnlAttrParseNested, mnlAttrParse, stops]
      rfl

end Rejections

section Messages

/-- The chain of a filter message: its attribute, or chain 0. -/
def Nlmsg.chainNo (nlh : Nlmsg) : UInt32 :=
  match attrIn nlh.attrs 11 with
  | some chain => UInt32.ofNat (wordAt chain 0 4)
  | none => 0

/-- The priority of a filter message. -/
def Nlmsg.prio (nlh : Nlmsg) : UInt16 := (tcHMaj nlh.tcm.info >>> 16).toUInt16

/-- Attributes, the message's own or those of its flower options, that a callback rejects. -/
def Nlmsg.Malformed (nlh : Nlmsg) : Prop :=
  ¬ Valid tcAttrTypes nlh.attrs ∨
    Valid tcAttrTypes nlh.attrs ∧ ∃ options ∈ flowerOptions nlh, FlowerRejected options

/-- A removal that has all that is read of it. -/
def Nlmsg.Removal (nlh : Nlmsg) : Prop :=
  nlh.type = rtmDeltfilter ∧ MessageValid nlh ∧
    ∀ options ∈ flowerOptions nlh, FlowerDecodable options

/-- What a new filter is: no flower filter, or one with the kind and the options that
`tc_encode_rule` writes for a rule of the daemon. -/
inductive Nlmsg.Describes (nlh : Nlmsg) : TcRule → Prop
  | other : flowerOptions nlh = none → nlh.Describes { type := .alien }
  | daemon {ifidx chainNo : UInt32} {prio : UInt16} {tcr : TcRule} {written : Nlmsg} :
      DaemonRule tcr → tcEncodeRule ifidx chainNo prio (some tcr) true = .ok written →
      attrIn nlh.attrs 1 = attrIn written.attrs 1 → attrIn nlh.attrs 2 = attrIn written.attrs 2 →
      nlh.Describes tcr

end Messages

section Decoding

variable {nlh : Nlmsg}

/-- The part of `try_decode_filter` for the kind of a filter that is not new. -/
def decodeOldKind (kind options : Option Bytes) : Except Stop TcRule :=
  match kind, options with
  | some kind, some options =>
    if mnlAttrGetStr kind = ascii "flower" then decodeFlower options {} else .ok {}
  | _, _ => .ok {}

/-- The part for the chain. -/
def decodeFilterChain (chain : Option Bytes) : Except Stop UInt32 :=
  match chain with
  | some chain => mnlAttrGetU32 chain
  | none => .ok 0

/-- The parts in order. -/
theorem tryDecodeFilter_old (old : nlh.type ≠ rtmNewtfilter) (one : nlh.tcm.handle = 1)
    {tb : AttrTable}
    (parsed : mnlAttrParse nlh.attrs (decodeNlattr tcAttrTypes) AttrTable.empty = .ok tb) :
    tryDecodeFilter nlh = decodeOldKind (tb 1) (tb 2) >>= fun tcr =>
      decodeFilterChain (tb 11) >>= fun chainNo =>
        .ok { isDone := true, chainNo, prio := nlh.prio, tcr } := by
  have nonzero : ¬ nlh.tcm.handle = 0 := by
    rw [one]
    decide
  unfold tryDecodeFilter
  rw [if_neg nonzero, require, if_pos one, ok_bind, parsed, ok_bind]
  generalize tb 1 = kind
  generalize tb 2 = options
  generalize tb 11 = chain
  simp only [old, if_false]
  unfold decodeOldKind
  cases kind with
  | none => cases chain <;> rfl
  | some kind =>
    cases options with
    | none => cases chain <;> rfl
    | some options =>
      dsimp only
      split <;> cases chain <;> rfl

/-- The options of a flower filter are those of its kind. -/
theorem kind_of_flowerOptions {options : Bytes} (flower : options ∈ flowerOptions nlh) :
    ∃ kind, attrIn nlh.attrs 1 = some kind ∧ attrIn nlh.attrs 2 = some options ∧
      mnlAttrGetStr kind = ascii "flower" := by
  unfold flowerOptions at flower
  cases first : attrIn nlh.attrs 1 with
  | none =>
    rw [first] at flower
    cases flower
  | some kind =>
    cases second : attrIn nlh.attrs 2 with
    | none =>
      rw [first, second] at flower
      cases flower
    | some found =>
      rw [first, second] at flower
      dsimp only at flower
      by_cases named : mnlAttrGetStr kind = ascii "flower"
      · rw [if_pos named] at flower
        cases flower
        exact ⟨kind, rfl, rfl, named⟩
      · rw [if_neg named] at flower
        cases flower

/-- A filter that is no flower filter is not decoded further. -/
theorem kind_of_other (other : flowerOptions nlh = none) :
    decodeKind (attrIn nlh.attrs 1) (attrIn nlh.attrs 2) = .ok { type := .alien } ∧
      decodeOldKind (attrIn nlh.attrs 1) (attrIn nlh.attrs 2) = .ok {} := by
  unfold flowerOptions at other
  unfold decodeKind decodeOldKind
  cases first : attrIn nlh.attrs 1 with
  | none => exact ⟨rfl, rfl⟩
  | some kind =>
    cases second : attrIn nlh.attrs 2 with
    | none => exact ⟨rfl, rfl⟩
    | some options =>
      rw [first, second] at other
      dsimp only at other ⊢
      by_cases named : mnlAttrGetStr kind = ascii "flower"
      · rw [if_pos named] at other
        cases other
      · rw [if_neg named, if_neg named]
        exact ⟨rfl, rfl⟩

/-- A malformed message is not decoded. -/
theorem Nlmsg.Malformed.rejected (malformed : nlh.Malformed) (one : nlh.tcm.handle = 1) :
    tryDecodeFilter nlh = .error .callbackError := by
  rcases malformed with invalid | ⟨valid, options, flower, invalid⟩
  · have nonzero : ¬ nlh.tcm.handle = 0 := by
      rw [one]
      decide
    unfold tryDecodeFilter
    rw [if_neg nonzero, require, if_pos one, ok_bind, parse_invalid invalid]
    rfl
  · obtain ⟨kind, first, second, named⟩ := kind_of_flowerOptions flower
    obtain ⟨tb, parsed, entries⟩ := valid.parse fun _ _ _ => rfl
    have fresh : Unsettled {} := .inl rfl
    have stopped := invalid.stops fresh
    by_cases new : nlh.type = rtmNewtfilter
    · rw [tryDecodeFilter_eq new one parsed, entries 1 (by decide) (by decide),
        entries 2 (by decide) (by decide), first, second, decodeKind, if_pos named, stopped]
      rfl
    · rw [tryDecodeFilter_old new one parsed, entries 1 (by decide) (by decide),
        entries 2 (by decide) (by decide), first, second, decodeOldKind, if_pos named, stopped]
      rfl

/-- The chain of a valid message is read. -/
theorem chainNo_read (valid : Valid tcAttrTypes nlh.attrs) :
    decodeFilterChain (attrIn nlh.attrs 11) = .ok nlh.chainNo := by
  unfold Nlmsg.chainNo decodeFilterChain
  cases present : attrIn nlh.attrs 11 with
  | none => rfl
  | some chain =>
    have size := valid.attrIn (by decide) (by decide) present
    have four : chain.length = 4 := by simpa [mnlAttrValidate, tcAttrTypes] using size
    have word : readAt chain 0 4 = .ok (wordAt chain 0 4) := readAt_fits (by omega)
    simp only [mnlAttrGetU32, word, Functor.map, Except.map]

/-- A removal is decoded to its position. -/
theorem Nlmsg.Removal.decoded (removal : nlh.Removal) (one : nlh.tcm.handle = 1) :
    ∃ tcr, tryDecodeFilter nlh =
      .ok { isDone := true, chainNo := nlh.chainNo, prio := nlh.prio, tcr } := by
  obtain ⟨gone, valid, good⟩ := removal
  have old : nlh.type ≠ rtmNewtfilter := by
    rw [gone]
    decide
  obtain ⟨tb, parsed, entries⟩ := valid.1.parse fun _ _ _ => rfl
  rw [tryDecodeFilter_old old one parsed, entries 1 (by decide) (by decide),
    entries 2 (by decide) (by decide), entries 11 (by decide) (by decide), chainNo_read valid.1]
  cases flower : flowerOptions nlh with
  | none =>
    rw [(kind_of_other flower).2]
    exact ⟨{}, rfl⟩
  | some options =>
    obtain ⟨kind, first, second, named⟩ := kind_of_flowerOptions flower
    obtain ⟨tcr, ran, -⟩ := decodeFlower_reads (valid.2 options flower) (good options flower)
      (show Unsettled {} from .inl rfl)
    rw [first, second, decodeOldKind, if_pos named, ran]
    exact ⟨tcr, rfl⟩

/-- The parts of the decoding of a new filter. -/
theorem tryDecodeFilter_new (new : nlh.type = rtmNewtfilter) (one : nlh.tcm.handle = 1)
    (valid : Valid tcAttrTypes nlh.attrs) :
    tryDecodeFilter nlh = decodeKind (attrIn nlh.attrs 1) (attrIn nlh.attrs 2) >>= fun tcr => do
      let tcr ← decoding (tcRuleSetType (tcRuleDetect tcr).1 (tcRuleDetect tcr).2)
      return { isDone := true, chainNo := nlh.chainNo, prio := nlh.prio, tcr } := by
  obtain ⟨tb, parsed, entries⟩ := valid.parse fun _ _ _ => rfl
  rw [tryDecodeFilter_eq new one parsed, entries 1 (by decide) (by decide),
    entries 2 (by decide) (by decide), entries 11 (by decide) (by decide)]
  refine bind_congr_ok fun tcr _ => ?_
  have read := chainNo_read valid
  unfold decodeFilterChain at read
  unfold decodeRest
  cases present : attrIn nlh.attrs 11 with
  | none =>
    rw [present] at read
    rw [← Except.ok.inj read]
    rfl
  | some chain =>
    rw [present] at read
    dsimp only at read ⊢
    rw [read]
    rfl

/-- A new filter is decoded to what it says. -/
theorem Nlmsg.Describes.decoded {tcr : TcRule} (describes : nlh.Describes tcr) (new : nlh.type = rtmNewtfilter)
    (one : nlh.tcm.handle = 1) (valid : Valid tcAttrTypes nlh.attrs) :
    tryDecodeFilter nlh =
      .ok { isDone := true, chainNo := nlh.chainNo, prio := nlh.prio, tcr } := by
  rw [tryDecodeFilter_new new one valid]
  cases describes with
  | other other =>
    rw [(kind_of_other other).1]
    rfl
  | @daemon ifidx chainNo prio _ written rule encoded kind options =>
    obtain ⟨same, encoded', decoded⟩ := rule.roundTrips ifidx chainNo prio
    rw [encoded] at encoded'
    cases encoded'
    have decoded : tryDecodeFilter written = .ok { isDone := true, chainNo, prio, tcr } := by
      rw [decodeFilter2] at decoded
      split at decoded
      · next here => rw [here, Option.some.inj (Except.ok.inj decoded)]
      · cases decoded
      · cases decoded
    have head : written.type = rtmNewtfilter ∧ written.tcm.handle = 1 := by
      obtain ⟨flower, -, encoded⟩ := bind_returned encoded
      obtain ⟨body, -, encoded⟩ := bind_returned encoded
      cases encoded
      exact ⟨rfl, rfl⟩
    have valid' : Valid tcAttrTypes written.attrs := by
      by_contra invalid
      rw [Nlmsg.Malformed.rejected (.inl invalid) head.2] at decoded
      cases decoded
    rw [tryDecodeFilter_new head.1 head.2 valid'] at decoded
    obtain ⟨read, made, decoded⟩ := bind_returned decoded
    obtain ⟨settled, set, decoded⟩ := bind_returned decoded
    cases decoded
    rw [kind, options, made, ok_bind, set]
    rfl

end Decoding

end FlowerRoute
