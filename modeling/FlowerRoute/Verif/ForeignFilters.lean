import FlowerRoute.Verif.Masks
import FlowerRoute.Verif.RoundTrip

/-!
# Foreign filters

What `try_decode_filter` does with any filter message whose attributes are valid for their type
maps: on which messages it stops the daemon, and on which it returns a rule that is ALIEN. Every
decoder is described by what it needs in order not to fault, whether it handles what it finds,
and the traits it adds. What a filter of the daemon looks like is said apart from the decoders,
by what it matches and what its actions do.
-/

namespace FlowerRoute

open Tlv Outcome

/-! ## Attributes -/

section Attributes

variable {map : TypeMap} {payload found : Bytes} {type : Nat}

/-- Every attribute that a type map knows is valid for it. -/
def Valid (map : TypeMap) (payload : Bytes) : Prop :=
  ∀ a ∈ parse payload, a.type ≤ map.max → map.type a.type ≠ .unspec →
    mnlAttrValidate a.payload (map.type a.type) = true

/-- The attribute of a type, the last one if there are several. -/
def attrIn (payload : Bytes) (type : Nat) : Option Bytes := tableOf (parse payload) type

/-- The bytes at an offset of a payload, as a number. -/
def wordAt (payload : Bytes) (offset width : Nat) : Nat :=
  leNat ((payload.drop offset).take width)

theorem readAt_fits {offset width : Nat} (fits : offset + width ≤ payload.length) :
    readAt payload offset width = .ok (wordAt payload offset width) := if_pos fits

theorem readAt_beyond {offset width : Nat} (beyond : ¬ offset + width ≤ payload.length) :
    readAt payload offset width = .error (.fault .outOfBounds) := if_neg beyond

/-- The table of an attribute type among some attributes: one of them has it. -/
theorem tableOf_mem {attrs : List Attr} (read : tableOf attrs type = some found) :
    ∃ a ∈ attrs, a.type = type ∧ a.payload = found := by
  induction attrs with
  | nil => cases read
  | cons a attrs ih =>
    rw [tableOf_cons] at read
    rcases Option.or_eq_some_iff.mp read with later | ⟨-, here⟩
    · obtain ⟨b, inside, same⟩ := ih later
      exact ⟨b, List.mem_cons_of_mem _ inside, same⟩
    · split at here
      · next same => exact ⟨a, List.mem_cons_self, same.symm, Option.some.inj here⟩
      · cases here

/-- An attribute that is read is valid. -/
theorem Valid.attrIn (valid : Valid map payload) (small : type ≤ map.max)
    (typed : map.type type ≠ .unspec) (read : attrIn payload type = some found) :
    mnlAttrValidate found (map.type type) = true := by
  obtain ⟨a, inside, rfl, rfl⟩ := tableOf_mem read
  exact valid a inside small typed

/-- Valid attributes are entered into a table. -/
theorem Valid.parse (valid : Valid map payload) {callback : AttrTable → Attr → Except Stop AttrTable}
    (enters : ∀ tb, ∀ a ∈ parse payload, callback tb a = decodeNlattr map tb a) :
    ∃ tb, mnlAttrParse payload callback AttrTable.empty = .ok tb ∧
      ∀ type ≤ map.max, map.type type ≠ .unspec → tb type = FlowerRoute.attrIn payload type := by
  suffices general : ∀ attrs : List Attr, (∀ a ∈ attrs, a ∈ Tlv.parse payload) → ∀ start : AttrTable,
      ∃ tb, attrs.foldlM callback start = .ok tb ∧ ∀ type ≤ map.max, map.type type ≠ .unspec →
        tb type = (tableOf attrs type).or (start type) by
    obtain ⟨tb, parsed, entries⟩ := general _ (fun _ inside => inside) AttrTable.empty
    refine ⟨tb, parsed, fun type small typed => ?_⟩
    rw [entries type small typed]
    exact Option.or_none
  intro attrs
  induction attrs with
  | nil => exact fun _ start => ⟨start, rfl, fun _ _ _ => rfl⟩
  | cons a attrs ih =>
    intro inside start
    have here := inside a List.mem_cons_self
    obtain ⟨entered, first, entry⟩ : ∃ entered, callback start a = .ok entered ∧
        ∀ type ≤ map.max, map.type type ≠ .unspec →
          entered type = (if type = a.type then some a.payload else none).or (start type) := by
      rw [enters start a here]
      unfold decodeNlattr
      by_cases small : map.max < a.type
      · rw [if_pos small]
        refine ⟨start, rfl, fun type bound _ => ?_⟩
        rw [if_neg (by omega), Option.none_or]
      · rw [if_neg small]
        by_cases typed : map.type a.type = .unspec
        · rw [if_pos typed]
          refine ⟨start, rfl, fun type _ other => ?_⟩
          have different : type ≠ a.type := by
            rintro rfl
            exact other typed
          rw [if_neg different, Option.none_or]
        · rw [if_neg typed, if_pos (valid a here (by omega) typed)]
          refine ⟨_, rfl, fun type _ _ => ?_⟩
          unfold AttrTable.set
          split <;> simp
    obtain ⟨tb, rest, entries⟩ := ih (fun b member => inside b (List.mem_cons_of_mem _ member))
      entered
    refine ⟨tb, ?_, fun type small typed => ?_⟩
    · rw [List.foldlM_cons, first]
      exact rest
    · rw [entries type small typed, entry type small typed, tableOf_cons, Option.or_assoc]

end Attributes

/-! ## Marks and traits -/

section Marks

variable {rule rule' rule'' : TcRule} {handled handled' : Prop} {traits traits' : UInt32}

/-- A rule that is being decoded has no type yet, or is marked as ALIEN. -/
def Unsettled (rule : TcRule) : Prop := rule.type = .unspec ∨ rule.type = .alien

/-- A decoder went from one rule to another: it marked the rule unless it handled what it found,
and it added traits to a rule that is not marked. -/
structure Reads (rule rule' : TcRule) (handled : Prop) (traits : UInt32) : Prop where
  unsettled : Unsettled rule'
  alien : rule'.type = .alien ↔ rule.type = .alien ∨ ¬ handled
  traits : rule'.type ≠ .alien → rule'.traits = rule.traits ||| traits

/-- The daemon stops. -/
def Faults {α : Type} (result : Except Stop α) : Prop := ∃ fault, result = .error (.fault fault)

theorem Faults.bind {α β : Type} {first : Except Stop α} (faults : Faults first)
    (next : α → Except Stop β) : Faults (first >>= next) := by
  obtain ⟨fault, stopped⟩ := faults
  rw [stopped]
  exact ⟨fault, rfl⟩

namespace Reads

/-- Traits are added. -/
theorem add (unsettled : Unsettled rule) (type : rule'.type = rule.type)
    (traits_eq : rule'.traits = rule.traits ||| traits) : Reads rule rule' True traits := by
  constructor
  · unfold Unsettled
    rw [type]
    exact unsettled
  · simp [type]
  · exact fun _ => traits_eq

/-- Nothing is done. -/
theorem same (unsettled : Unsettled rule) : Reads rule rule True 0 :=
  add unsettled rfl (by simp)

/-- One decoder after the other. -/
theorem trans (first : Reads rule rule' handled traits) (second : Reads rule' rule'' handled' traits') :
    Reads rule rule'' (handled ∧ handled') (traits ||| traits') := by
  constructor
  · exact second.unsettled
  · rw [second.alien, first.alien, not_and_or, or_assoc]
  · intro unmarked
    have before : rule'.type ≠ .alien := fun marked => unmarked (second.alien.mpr (.inl marked))
    rw [second.traits unmarked, first.traits before, UInt32.or_assoc]

/-- The same, with what is handled and added spelled otherwise. -/
theorem congr (reads : Reads rule rule' handled traits) (same : handled ↔ handled')
    (equal : handled' → traits = traits') : Reads rule rule' handled' traits' := by
  constructor
  · exact reads.unsettled
  · rw [reads.alien, same]
  · intro unmarked
    have known : handled' := by
      by_contra unknown
      exact unmarked (reads.alien.mpr (.inr fun here => unknown (same.mp here)))
    rw [reads.traits unmarked, equal known]

/-- A decoder that handles what it finds, or marks the rule. -/
theorem mark (unsettled : Unsettled rule) (unhandled : ¬ handled) :
    ∃ rule', decoding (tcRuleMarkAlien rule) = .ok rule' ∧ Reads rule rule' handled traits := by
  refine ⟨{ rule with type := .alien }, ?_, ?_⟩
  · unfold tcRuleMarkAlien tcRuleSetType
    rcases unsettled with fresh | marked
    · simp [fresh, decoding, Except.mapError]
    · rw [if_pos marked, ← marked]
      rfl
  · constructor
    · exact .inr rfl
    · simp [unhandled]
    · exact fun unmarked => absurd rfl unmarked

/-- The rule is marked unless a condition holds. -/
theorem markUnless (unsettled : Unsettled rule) (condition : Prop) [Decidable condition] :
    ∃ rule', (if ¬ condition then decoding (tcRuleMarkAlien rule) else pure rule) = .ok rule' ∧
      Reads rule rule' condition 0 := by
  by_cases holds : condition
  · rw [if_neg (not_not.mpr holds)]
    exact ⟨rule, rfl, (same unsettled).congr (by simp [holds]) fun _ => rfl⟩
  · rw [if_pos holds]
    exact mark unsettled holds

end Reads

end Marks

/-! ## Actions -/

section Actions

variable {a : Attr} {rule : TcRule} {options : Bytes}

/-- The kind of an action. -/
def actionKind (a : Attr) : Option Bytes := (attrIn a.payload 1).map mnlAttrGetStr

/-- An option of an action. -/
def actionOption (options : Option Bytes) (type : Nat) : Option Bytes :=
  options.bind fun options => attrIn options type

/-- An option holds a C structure up to the bytes that are read. -/
def Holds (option : Option Bytes) (size : Nat) : Prop :=
  ∃ parms, option = some parms ∧ size ≤ parms.length

/-- `p->action` of a `gact`. -/
def gactAction (options : Option Bytes) : UInt32 :=
  UInt32.ofNat (wordAt ((actionOption options 2).getD []) 8 4)

/-- The traits of a `gact`. -/
def gactTraits (options : Option Bytes) : UInt32 :=
  if gactAction options &&& ~~~0x0FFFFFFF = tcActGotoChain then haveGoto
  else if gactAction options = tcActTrap then haveTrap
  else 0

/-- The options of an action are parsed, if they are present. -/
theorem options_parse {map : TypeMap} {options : Option Bytes}
    (valid : ∀ payload ∈ options, Valid map payload) :
    Faults (mnlAttrParseNested options (decodeNlattr map) AttrTable.empty) ∧ options = none ∨
      ∃ tb, mnlAttrParseNested options (decodeNlattr map) AttrTable.empty = .ok tb ∧
        ∀ type ≤ map.max, map.type type ≠ .unspec → tb type = actionOption options type := by
  cases options with
  | none => exact .inl ⟨⟨_, rfl⟩, rfl⟩
  | some payload => exact .inr ((valid payload rfl).parse fun _ _ _ => rfl)

/-- `decode_nlattr_tc_act_gact_cb` handles every action. -/
theorem gact_reads {options : Option Bytes}
    (valid : ∀ payload ∈ options, Valid tcaGactAttrTypes payload)
    (good : Holds (actionOption options 2) 12) (unsettled : Unsettled rule) :
    ∃ rule', decodeNlattrTcActGactCb options rule = .ok rule' ∧
      Reads rule rule' True (gactTraits options) := by
  obtain ⟨p, parms, fits⟩ := good
  unfold decodeNlattrTcActGactCb
  rcases options_parse valid with ⟨-, rfl⟩ | ⟨tb, parsed, entries⟩
  · cases parms
  · have entry : tb 2 = some p := (entries 2 (by decide) (by decide)).trans parms
    have action : UInt32.ofNat (wordAt p 8 4) = gactAction options := by
      simp [gactAction, parms]
    have read : readAt p 8 4 = .ok (wordAt p 8 4) := readAt_fits fits
    rw [parsed, ok_bind, entry]
    simp only [presentAttr, ok_bind, read, action]
    unfold gactTraits
    split
    · exact ⟨_, rfl, .add unsettled rfl rfl⟩
    · split
      · exact ⟨_, rfl, .add unsettled rfl rfl⟩
      · exact ⟨_, rfl, .same unsettled⟩

/-- The VLAN id that a `vlan` action pushes. -/
def vlanPushed (options : Option Bytes) : UInt16 :=
  match actionOption options 3 with
  | some id => UInt16.ofNat (wordAt id 0 2)
  | none => 0

/-- The traits of a `vlan` action. -/
def vlanTraits (options : Option Bytes) : UInt32 :=
  if 0 < vlanPushed options then haveVlanMod else 0

/-- A field of the parameters of an action. -/
def parmsWord (options : Option Bytes) (offset : Nat) : Nat :=
  wordAt ((actionOption options 2).getD []) offset 4

/-- `decode_nlattr_tc_act_vlan_cb` handles modifications. -/
theorem vlan_reads {options : Option Bytes}
    (valid : ∀ payload ∈ options, Valid tcaVlanAttrTypes payload)
    (good : Holds (actionOption options 2) 24) (unsettled : Unsettled rule) :
    ∃ rule', decodeNlattrTcActVlanCb options rule = .ok rule' ∧
      Reads rule rule' (parmsWord options 20 = 3) (vlanTraits options) := by
  obtain ⟨p, parms, fits⟩ := good
  unfold decodeNlattrTcActVlanCb
  rcases options_parse valid with ⟨-, rfl⟩ | ⟨tb, parsed, entries⟩
  · cases parms
  · have entry : tb 2 = some p := (entries 2 (by decide) (by decide)).trans parms
    have pushed := entries 3 (by decide) (by decide)
    have read : readAt p 20 4 = .ok (parmsWord options 20) := by
      rw [readAt_fits (by exact fits), parmsWord, parms]
      rfl
    have tail (rule₁ : TcRule) (unsettled : Unsettled rule₁) : ∃ rule', (do
          let vlanId ← if (tb 3).isSome then mnlAttrGetU16 (tb 3) else pure 0
          if 0 < vlanId then return { rule₁.addTraits haveVlanMod with vlanId }
          else return rule₁ : Except Stop TcRule) = .ok rule' ∧
        Reads rule₁ rule' True (vlanTraits options) := by
      rw [pushed]
      unfold vlanTraits vlanPushed
      cases present : actionOption options 3 with
      | none => exact ⟨_, rfl, .same unsettled⟩
      | some id =>
        cases options with
        | none => cases present
        | some payload =>
          have size := (valid payload rfl).attrIn (by decide) (by decide) present
          have two : id.length = 2 := by simpa [mnlAttrValidate, tcaVlanAttrTypes] using size
          have bytes : readAt id 0 2 = .ok (wordAt id 0 2) := readAt_fits (by omega)
          simp only [Option.isSome_some, if_true, mnlAttrGetU16, bytes, Functor.map, Except.map,
            ok_bind]
          split
          · exact ⟨_, rfl, .add unsettled rfl rfl⟩
          · exact ⟨_, rfl, .same unsettled⟩
    rw [parsed, ok_bind, entry]
    simp only [presentAttr, ok_bind, read]
    by_cases modify : parmsWord options 20 = 3
    · rw [if_neg (not_not.mpr modify)]
      obtain ⟨rule', ran, reads⟩ := tail rule unsettled
      exact ⟨rule', ran, reads.congr (by simp [modify]) fun _ => rfl⟩
    · rw [if_pos modify]
      obtain ⟨rule₁, marked, first⟩ := @Reads.mark rule (parmsWord options 20 = 3) 0 unsettled modify
      obtain ⟨rule', ran, second⟩ := tail rule₁ first.unsettled
      refine ⟨rule', ?_, (first.trans second).congr (by simp) fun _ => UInt32.zero_or⟩
      rw [marked, ok_bind]
      exact ran

/-- `decode_nlattr_tc_act_mirred_cb` handles redirections. -/
theorem mirred_reads {options : Option Bytes}
    (valid : ∀ payload ∈ options, Valid tcaMirredAttrTypes payload)
    (good : Holds (actionOption options 2) 24) (unsettled : Unsettled rule) :
    ∃ rule', decodeNlattrTcActMirredCb options rule = .ok rule' ∧
      Reads rule rule' (parmsWord options 20 = 1) 0 := by
  obtain ⟨p, parms, fits⟩ := good
  unfold decodeNlattrTcActMirredCb
  rcases options_parse valid with ⟨-, rfl⟩ | ⟨tb, parsed, entries⟩
  · cases parms
  · have entry : tb 2 = some p := (entries 2 (by decide) (by decide)).trans parms
    have read : readAt p 20 4 = .ok (parmsWord options 20) := by
      rw [readAt_fits (by exact fits), parmsWord, parms]
      rfl
    obtain ⟨rule', marked, reads⟩ := Reads.markUnless unsettled (parmsWord options 20 = 1)
    rw [parsed, ok_bind, entry]
    simp only [presentAttr, ok_bind, read]
    exact ⟨rule', marked, reads⟩

/-- `sel` of a `pedit` action. -/
def peditSel (options : Option Bytes) : Bytes := (actionOption options 4).getD []

/-- `sel->nkeys`. -/
def peditNkeys (options : Option Bytes) : Nat := wordAt (peditSel options) 20 1

/-- `sel->keys[i]`. -/
def peditKey (sel : Bytes) (i : Nat) : PeditKey :=
  ⟨UInt32.ofNat (wordAt sel (24 + 24 * i) 4), UInt32.ofNat (wordAt sel (24 + 24 * i + 4) 4),
    UInt32.ofNat (wordAt sel (24 + 24 * i + 8) 4)⟩

/-- The extended keys of a `pedit` action. -/
def peditExtended (options : Option Bytes) : List Attr :=
  parse ((actionOption options 5).getD [])

/-- An extended key. -/
def peditEntry (k : Attr) : MPeditKeyEx :=
  ⟨UInt16.ofNat (wordAt ((attrIn k.payload 1).getD []) 0 2),
    UInt16.ofNat (wordAt ((attrIn k.payload 2).getD []) 0 2)⟩

/-- An extended key has a header type and a command. -/
def PeditEntered (k : Attr) : Prop := attrIn k.payload 1 ≠ none ∧ attrIn k.payload 2 ≠ none

/-- A key sets a word of the Ethernet addresses, or adds to an IP header. -/
def KeyHandled (key : PeditKey) (ex : MPeditKeyEx) : Prop :=
  (ex.htype = 1 ∧ ex.cmd = 0 ∧ key.off % 4 = 0 ∧ key.off ≤ 8) ∨
    ((ex.htype = 2 ∨ ex.htype = 3) ∧ ex.cmd = 1)

/-- The traits of a key. -/
def keyTraits (ex : MPeditKeyEx) : UInt32 := if ex.htype = 1 then haveLladdr else haveTtlDec

/-- A number of an extended key. -/
theorem peditKeyEx_number {k : Attr} (valid : Valid tcaPeditKeyExAttrTypes k.payload) :
    ∃ tb, mnlAttrParse k.payload (decodeNlattr tcaPeditKeyExAttrTypes) AttrTable.empty = .ok tb ∧
      ∀ type, type = 1 ∨ type = 2 → mnlAttrGetU16 (tb type) =
        match attrIn k.payload type with
        | none => .error (.fault .nullPointer)
        | some number => .ok (UInt16.ofNat (wordAt number 0 2)) := by
  obtain ⟨tb, parsed, entries⟩ := valid.parse fun _ _ _ => rfl
  refine ⟨tb, parsed, fun type which => ?_⟩
  have typed : type ≤ 2 ∧ tcaPeditKeyExAttrTypes.type type = .u16 := by
    rcases which with rfl | rfl <;> exact ⟨by decide, rfl⟩
  have known : tcaPeditKeyExAttrTypes.type type ≠ .unspec := by simp [typed.2]
  rw [entries type typed.1 known]
  cases present : attrIn k.payload type with
  | none => rfl
  | some number =>
    have size := valid.attrIn typed.1 known present
    rw [typed.2] at size
    have two : number.length = 2 := by simpa [mnlAttrValidate] using size
    have bytes : readAt number 0 2 = .ok (wordAt number 0 2) := readAt_fits (by omega)
    simp [mnlAttrGetU16, bytes, Functor.map, Except.map]

/-- An extended key with both numbers is stored if there is room. -/
theorem peditKeyEx_stores {nkeys : Nat} {k : Attr} {stored : List MPeditKeyEx}
    (valid : Valid tcaPeditKeyExAttrTypes k.payload) (room : stored.length < nkeys)
    (entered : PeditEntered k) :
    decodePeditKeyEx nkeys stored k = .ok (stored ++ [peditEntry k]) := by
  obtain ⟨tb, parsed, numbers⟩ := peditKeyEx_number valid
  obtain ⟨htype, htypeIs⟩ := Option.ne_none_iff_exists'.mp entered.1
  obtain ⟨cmd, cmdIs⟩ := Option.ne_none_iff_exists'.mp entered.2
  unfold decodePeditKeyEx peditEntry
  simp only [parsed, ok_bind, numbers 1 (.inl rfl), numbers 2 (.inr rfl), htypeIs, cmdIs, require,
    if_pos room, Option.getD_some]
  rfl

/-- The extended keys are stored in order. -/
theorem peditKeysEx_stores {nkeys : Nat} {ks : List Attr} {stored : List MPeditKeyEx}
    (valid : ∀ k ∈ ks, Valid tcaPeditKeyExAttrTypes k.payload)
    (room : stored.length + ks.length ≤ nkeys) (entered : ∀ k ∈ ks, PeditEntered k) :
    ks.foldlM (decodePeditKeyEx nkeys) stored = .ok (stored ++ ks.map peditEntry) := by
  induction ks generalizing stored with
  | nil => simp [pure, Except.pure]
  | cons k ks ih =>
    obtain ⟨here, valid⟩ := List.forall_mem_cons.mp valid
    obtain ⟨first, entered⟩ := List.forall_mem_cons.mp entered
    rw [List.length_cons] at room
    rw [List.foldlM_cons, peditKeyEx_stores here (by omega) first, ok_bind, ih valid _ entered]
    · simp
    · rw [List.length_append, List.length_singleton]
      omega

/-- A key is looked at to set a word of the Ethernet addresses, and is within the selector then. -/
def KeyFits (sel : Bytes) (i : Nat) (ex : MPeditKeyEx) : Prop :=
  ex.htype = 1 → ex.cmd = 0 → 24 + 24 * i + 12 ≤ sel.length

/-- The keys from `i` on are gone through up to the first one that is not handled. -/
def KeysFit (sel : Bytes) (keysEx : List MPeditKeyEx) (i count : Nat) : Prop :=
  ∀ k, i ≤ k → k < i + count →
    (∀ j, i ≤ j → j < k → KeyHandled (peditKey sel j) (keysEx.getD j {})) →
    KeyFits sel k (keysEx.getD k {})

/-- A key within the selector. -/
theorem peditKeyAt_fits {sel : Bytes} {i : Nat} (fits : 24 + 24 * i + 12 ≤ sel.length) :
    peditKeyAt sel i = .ok (peditKey sel i) := by
  have mask : readAt sel (24 + 24 * i) 4 = .ok (wordAt sel (24 + 24 * i) 4) :=
    readAt_fits (by omega)
  have val : readAt sel (24 + 24 * i + 4) 4 = .ok (wordAt sel (24 + 24 * i + 4) 4) :=
    readAt_fits (by omega)
  have off : readAt sel (24 + 24 * i + 8) 4 = .ok (wordAt sel (24 + 24 * i + 8) 4) :=
    readAt_fits (by omega)
  unfold peditKeyAt
  simp only [mask, val, off, ok_bind]
  rfl

/-- A key that is handled. -/
theorem decodePeditKey_handled {sel : Bytes} {i : Nat} {ex : MPeditKeyEx}
    (fits : KeyFits sel i ex) (handled : KeyHandled (peditKey sel i) ex)
    (unsettled : Unsettled rule) :
    ∃ rule', decodePeditKey sel i ex rule = .ok (some rule') ∧
      Reads rule rule' True (keyTraits ex) := by
  unfold decodePeditKey keyTraits
  rcases handled with ⟨ethernet, set, aligned, small⟩ | ⟨ip, add⟩
  · have inside : ¬ ((peditKey sel i).off % 4 ≠ 0 ∨ 8 < (peditKey sel i).off) := by
      simp only [aligned, ne_eq, not_true, false_or]
      exact UInt32.not_lt.mpr small
    rw [if_pos ethernet, if_pos ethernet, if_neg (not_not.mpr set),
      peditKeyAt_fits (fits ethernet set), ok_bind, if_neg inside]
    exact ⟨_, rfl, .add unsettled rfl rfl⟩
  · have other : ex.htype ≠ 1 := by
      rcases ip with same | same <;> rw [same] <;> decide
    rw [if_neg other, if_neg other, if_pos ip, if_neg (not_not.mpr add)]
    exact ⟨_, rfl, .add unsettled rfl rfl⟩

/-- A key that is not handled. -/
theorem decodePeditKey_unhandled {sel : Bytes} {i : Nat} {ex : MPeditKeyEx}
    (fits : KeyFits sel i ex) (unhandled : ¬ KeyHandled (peditKey sel i) ex) :
    decodePeditKey sel i ex rule = .ok none := by
  unfold decodePeditKey
  by_cases ethernet : ex.htype = 1
  · rw [if_pos ethernet]
    by_cases set : ex.cmd = 0
    · have outside : (peditKey sel i).off % 4 ≠ 0 ∨ 8 < (peditKey sel i).off := by
        by_contra inside
        simp only [not_or, not_not] at inside
        exact unhandled (.inl ⟨ethernet, set, inside.1, UInt32.not_lt.mp inside.2⟩)
      rw [if_neg (not_not.mpr set), peditKeyAt_fits (fits ethernet set), ok_bind, if_pos outside]
      rfl
    · rw [if_pos set]
  · rw [if_neg ethernet]
    by_cases ip : ex.htype = 2 ∨ ex.htype = 3
    · have other : ex.cmd ≠ 1 := fun add => unhandled (.inr ⟨ip, add⟩)
      rw [if_pos ip, if_pos other]
    · rw [if_neg ip]

/-- The traits of the keys from `i` on. -/
def keysTraits (keysEx : List MPeditKeyEx) (i count : Nat) : UInt32 :=
  (List.range' i count).foldr (fun k traits => keyTraits (keysEx.getD k {}) ||| traits) 0

/-- The loop over the keys handles all of them, or marks the rule at the first other one. -/
theorem decodePeditKeys_reads {sel : Bytes} {keysEx : List MPeditKeyEx} {i count : Nat}
    (fit : KeysFit sel keysEx i count) (unsettled : Unsettled rule) :
    ∃ rule', decodePeditKeys sel keysEx count i rule = .ok rule' ∧ Reads rule rule'
      (∀ k, i ≤ k → k < i + count → KeyHandled (peditKey sel k) (keysEx.getD k {}))
      (keysTraits keysEx i count) := by
  induction count generalizing i rule with
  | zero =>
    refine ⟨rule, rfl, (Reads.same unsettled).congr ⟨fun _ k low high => ?_, fun _ => trivial⟩
      fun _ => rfl⟩
    omega
  | succ count ih =>
    have here : KeyFits sel i (keysEx.getD i {}) :=
      fit i (Nat.le_refl _) (by omega) fun j low high => by omega
    unfold decodePeditKeys
    by_cases handled : KeyHandled (peditKey sel i) (keysEx.getD i {})
    · obtain ⟨rule₁, first, reads⟩ := decodePeditKey_handled here handled unsettled
      have rest : KeysFit sel keysEx (i + 1) count := by
        intro k low high before
        refine fit k (by omega) (by omega) fun j start stop => ?_
        by_cases same : j = i
        · rw [same]
          exact handled
        · exact before j (by omega) stop
      obtain ⟨rule', ran, others⟩ := ih rest reads.unsettled
      rw [first, ok_bind]
      refine ⟨rule', ran, (reads.trans others).congr ?_ fun _ => rfl⟩
      constructor
      · rintro ⟨-, later⟩ k low high
        by_cases same : k = i
        · rw [same]
          exact handled
        · exact later k (by omega) (by omega)
      · exact fun all => ⟨trivial, fun k low high => all k (by omega) (by omega)⟩
    · rw [decodePeditKey_unhandled here handled, ok_bind]
      apply Reads.mark unsettled
      intro all
      exact handled (all i (Nat.le_refl _) (by omega))

/-- The extended keys as they are stored. -/
def peditEntries (options : Option Bytes) : List MPeditKeyEx :=
  (peditExtended options).map peditEntry

/-- What `decode_nlattr_tc_act_pedit_cb` needs: the selector and the extended keys, no more of
these than the selector counts and each with both numbers, and a selector that holds the keys
that are read. -/
structure PeditDecodable (options : Option Bytes) : Prop where
  selector : Holds (actionOption options 4) 21
  extended : actionOption options 5 ≠ none
  room : (peditExtended options).length ≤ peditNkeys options
  entered : ∀ k ∈ peditExtended options, PeditEntered k
  fit : KeysFit (peditSel options) (peditEntries options) 0 (peditNkeys options)

/-- A `pedit` action with keys, all of them handled. -/
def PeditHandled (options : Option Bytes) : Prop :=
  peditNkeys options ≠ 0 ∧ ∀ i < peditNkeys options,
    KeyHandled (peditKey (peditSel options) i) ((peditEntries options).getD i {})

/-- The attributes of the options of a `pedit` action are valid. -/
def PeditValid (options : Option Bytes) : Prop :=
  (∀ payload ∈ options, Valid tcaPeditAttrTypes payload) ∧
    ∀ k ∈ peditExtended options, Valid tcaPeditKeyExAttrTypes k.payload

/-- A decodable `pedit` action. -/
theorem pedit_reads {options : Option Bytes} (valid : PeditValid options)
    (good : PeditDecodable options) (unsettled : Unsettled rule) :
    ∃ rule', decodeNlattrTcActPeditCb options rule = .ok rule' ∧ Reads rule rule'
      (PeditHandled options) (keysTraits (peditEntries options) 0 (peditNkeys options)) := by
  obtain ⟨⟨sel, selector, size⟩, extended, room, entered, fit⟩ := good
  obtain ⟨keys, extended⟩ := Option.ne_none_iff_exists'.mp extended
  unfold decodeNlattrTcActPeditCb
  rcases options_parse valid.1 with ⟨-, rfl⟩ | ⟨tb, parsed, entries⟩
  · cases selector
  · have first : tb 4 = some sel := (entries 4 (by decide) (by decide)).trans selector
    have second : tb 5 = some keys := (entries 5 (by decide) (by decide)).trans extended
    have sel_eq : peditSel options = sel := by simp [peditSel, selector]
    have keys_eq : peditExtended options = parse keys := by simp [peditExtended, extended]
    have count : readAt sel 20 1 = .ok (peditNkeys options) := by
      rw [readAt_fits (by exact size), peditNkeys, sel_eq]
    have stored : decodeNlattrTcActPeditKeysEx keys (peditNkeys options) =
        .ok (peditEntries options) := by
      unfold decodeNlattrTcActPeditKeysEx mnlAttrParse
      rw [← keys_eq, peditKeysEx_stores valid.2 (by simpa using room) entered]
      rfl
    rw [parsed, ok_bind, first, second]
    simp only [presentAttr, ok_bind, count, stored]
    by_cases empty : peditNkeys options = 0
    · rw [if_pos empty]
      exact Reads.mark unsettled fun handled => handled.1 empty
    · rw [if_neg empty, ← sel_eq]
      obtain ⟨rule', ran, reads⟩ := decodePeditKeys_reads fit unsettled
      refine ⟨rule', ran, reads.congr ?_ fun _ => rfl⟩
      constructor
      · exact fun all => ⟨empty, fun i bound => all i (Nat.zero_le _) (by omega)⟩
      · exact fun handled k _ bound => handled.2 k (by omega)

/-- The attributes of an action are valid, and so are those of its options. -/
structure ActionValid (a : Attr) : Prop where
  own : Valid tcActAttrTypes a.payload
  gact : actionKind a = some (ascii "gact") →
    ∀ payload ∈ attrIn a.payload 2, Valid tcaGactAttrTypes payload
  vlan : actionKind a = some (ascii "vlan") →
    ∀ payload ∈ attrIn a.payload 2, Valid tcaVlanAttrTypes payload
  pedit : actionKind a = some (ascii "pedit") → PeditValid (attrIn a.payload 2)
  mirred : actionKind a = some (ascii "mirred") →
    ∀ payload ∈ attrIn a.payload 2, Valid tcaMirredAttrTypes payload

/-- What `decode_nlattr_tc_act_cb` needs: no attribute beyond its type table, and the options
that the decoder of the kind reads. -/
structure ActionDecodable (a : Attr) : Prop where
  types : ∀ attr ∈ parse a.payload, attr.type ≤ tcActAttrTypes.max
  gact : actionKind a = some (ascii "gact") → Holds (actionOption (attrIn a.payload 2) 2) 12
  vlan : actionKind a = some (ascii "vlan") → Holds (actionOption (attrIn a.payload 2) 2) 24
  pedit : actionKind a = some (ascii "pedit") → PeditDecodable (attrIn a.payload 2)
  mirred : actionKind a = some (ascii "mirred") → Holds (actionOption (attrIn a.payload 2) 2) 24

/-- An action for which the rule is not marked. -/
structure ActionHandled (a : Attr) : Prop where
  kind : actionKind a ≠ none
  vlan : actionKind a = some (ascii "vlan") → parmsWord (attrIn a.payload 2) 20 = 3
  pedit : actionKind a = some (ascii "pedit") → PeditHandled (attrIn a.payload 2)
  mirred : actionKind a = some (ascii "mirred") → parmsWord (attrIn a.payload 2) 20 = 1

/-- The traits of an action. -/
def actionTraits (a : Attr) : UInt32 :=
  if actionKind a = some (ascii "gact") then gactTraits (attrIn a.payload 2)
  else if actionKind a = some (ascii "vlan") then vlanTraits (attrIn a.payload 2)
  else if actionKind a = some (ascii "pedit") then
    keysTraits (peditEntries (attrIn a.payload 2)) 0 (peditNkeys (attrIn a.payload 2))
  else 0

/-- The part of `decode_nlattr_tc_act_cb` after the attributes. -/
theorem act_helper (own : Valid tcActAttrTypes a.payload) (types : ∀ attr ∈ parse a.payload,
      attr.type ≤ tcActAttrTypes.max) :
    decodeNlattrTcActCb rule a =
      match actionKind a with
      | none => decoding (tcRuleMarkAlien rule)
      | some kind =>
        match tcActHelpers.find? fun helper => kind = ascii helper.1 with
        | some helper => helper.2 (attrIn a.payload 2) rule
        | none => .ok rule := by
  have enters (tb : AttrTable) (attr : Attr) (inside : attr ∈ parse a.payload) :
      decodeNlattrTcActAttrCb tb attr = decodeNlattr tcActAttrTypes tb attr := by
    unfold decodeNlattrTcActAttrCb
    rw [require, if_pos (types attr inside), ok_bind]
  obtain ⟨tb, parsed, entries⟩ := own.parse enters
  unfold decodeNlattrTcActCb actionKind
  rw [parsed, ok_bind, entries 1 (by decide) (by decide), entries 2 (by decide) (by decide)]
  cases attrIn a.payload 1 <;> rfl

/-- The helper of a kind. -/
theorem tcActHelpers_named {kind : String} {helper : Option Bytes → TcRule → Except Stop TcRule}
    (member : (kind, helper) ∈ tcActHelpers) :
    tcActHelpers.find? (fun helper => ascii kind = ascii helper.1) = some (kind, helper) := by
  simp only [tcActHelpers, List.mem_cons, Prod.mk.injEq, List.not_mem_nil, or_false] at member
  rcases member with ⟨rfl, rfl⟩ | ⟨rfl, rfl⟩ | ⟨rfl, rfl⟩ | ⟨rfl, rfl⟩ | ⟨rfl, rfl⟩ <;>
    simp [tcActHelpers, ascii]

/-- The kinds with a helper are told apart by their names. -/
theorem kinds_apart : ascii "gact" ≠ ascii "vlan" ∧ ascii "gact" ≠ ascii "pedit" ∧
    ascii "gact" ≠ ascii "mirred" ∧ ascii "vlan" ≠ ascii "pedit" ∧
    ascii "vlan" ≠ ascii "mirred" ∧ ascii "pedit" ≠ ascii "mirred" ∧
    ascii "csum" ≠ ascii "gact" ∧ ascii "csum" ≠ ascii "vlan" ∧ ascii "csum" ≠ ascii "pedit" ∧
    ascii "csum" ≠ ascii "mirred" := by
  decide

/-- The helper that an action is handed to. -/
inductive Helped (kind : Bytes) : Prop
  | gact (named : kind = ascii "gact")
  | vlan (named : kind = ascii "vlan")
  | pedit (named : kind = ascii "pedit")
  | mirred (named : kind = ascii "mirred")
  | ignored (gact : kind ≠ ascii "gact") (vlan : kind ≠ ascii "vlan")
      (pedit : kind ≠ ascii "pedit") (mirred : kind ≠ ascii "mirred")
      (ignores : ∀ options rule, (match tcActHelpers.find? fun helper => kind = ascii helper.1 with
        | some helper => helper.2 options rule
        | none => .ok rule) = .ok rule)

/-- Every kind has one of the helpers, or is ignored. -/
theorem helped (kind : Bytes) : Helped kind := by
  obtain ⟨-, -, -, -, -, -, gact', vlan', pedit', mirred'⟩ := kinds_apart
  by_cases gact : kind = ascii "gact"
  · exact .gact gact
  by_cases vlan : kind = ascii "vlan"
  · exact .vlan vlan
  by_cases pedit : kind = ascii "pedit"
  · exact .pedit pedit
  by_cases mirred : kind = ascii "mirred"
  · exact .mirred mirred
  by_cases csum : kind = ascii "csum"
  · subst csum
    refine .ignored gact' vlan' pedit' mirred' fun options rule => ?_
    rw [@tcActHelpers_named "csum" decodeNlattrTcActCsumCb (by simp [tcActHelpers])]
    rfl
  · refine .ignored gact vlan pedit mirred fun options rule => ?_
    have absent : tcActHelpers.find? (fun helper => kind = ascii helper.1) = none := by
      simp [tcActHelpers, gact, vlan, pedit, mirred, csum]
    rw [absent]

/-- A decodable action. -/
theorem act_reads (valid : ActionValid a) (good : ActionDecodable a) (unsettled : Unsettled rule) :
    ∃ rule', decodeNlattrTcActCb rule a = .ok rule' ∧
      Reads rule rule' (ActionHandled a) (actionTraits a) := by
  rw [act_helper valid.own good.types]
  cases kind : actionKind a with
  | none => exact Reads.mark unsettled fun handled => handled.kind kind
  | some name =>
    obtain ⟨gv, gp, gm, vp, vm, pm, -⟩ := kinds_apart
    dsimp only
    cases helped name with
    | gact named =>
      subst named
      rw [@tcActHelpers_named "gact" decodeNlattrTcActGactCb (by simp [tcActHelpers])]
      obtain ⟨rule', ran, reads⟩ := gact_reads (valid.gact kind) (good.gact kind) unsettled
      refine ⟨rule', ran, reads.congr ⟨fun _ => ⟨?_, ?_, ?_, ?_⟩, fun _ => trivial⟩ fun _ => ?_⟩
      all_goals simp [kind, gv, gp, gm, actionTraits]
    | vlan named =>
      subst named
      rw [@tcActHelpers_named "vlan" decodeNlattrTcActVlanCb (by simp [tcActHelpers])]
      obtain ⟨rule', ran, reads⟩ := vlan_reads (valid.vlan kind) (good.vlan kind) unsettled
      refine ⟨rule', ran, reads.congr ⟨fun modify => ⟨?_, fun _ => modify, ?_, ?_⟩,
        fun handled => handled.vlan kind⟩ fun _ => ?_⟩
      all_goals simp [kind, gv.symm, vp, vm, actionTraits]
    | pedit named =>
      subst named
      rw [@tcActHelpers_named "pedit" decodeNlattrTcActPeditCb (by simp [tcActHelpers])]
      obtain ⟨rule', ran, reads⟩ := pedit_reads (valid.pedit kind) (good.pedit kind) unsettled
      refine ⟨rule', ran, reads.congr ⟨fun keys => ⟨?_, ?_, fun _ => keys, ?_⟩,
        fun handled => handled.pedit kind⟩ fun _ => ?_⟩
      all_goals simp [kind, gp.symm, vp.symm, pm, actionTraits]
    | mirred named =>
      subst named
      rw [@tcActHelpers_named "mirred" decodeNlattrTcActMirredCb (by simp [tcActHelpers])]
      obtain ⟨rule', ran, reads⟩ := mirred_reads (valid.mirred kind) (good.mirred kind) unsettled
      refine ⟨rule', ran, reads.congr ⟨fun redirect => ⟨?_, ?_, ?_, fun _ => redirect⟩,
        fun handled => handled.mirred kind⟩ fun _ => ?_⟩
      all_goals simp [kind, gm.symm, vm.symm, pm.symm, actionTraits]
    | ignored gact vlan pedit mirred ignores =>
      rw [ignores]
      refine ⟨rule, rfl, (Reads.same unsettled).congr ⟨fun _ => ⟨?_, ?_, ?_, ?_⟩,
        fun _ => trivial⟩ fun _ => ?_⟩
      all_goals simp [kind, gact, vlan, pedit, mirred, actionTraits]

/-- The traits of some actions. -/
def actionsTraits (acts : List Attr) : UInt32 :=
  acts.foldr (fun a traits => actionTraits a ||| traits) 0

/-- Decodable actions, one after the other. -/
theorem acts_read {acts : List Attr} (valid : ∀ a ∈ acts, ActionValid a)
    (good : ∀ a ∈ acts, ActionDecodable a) (unsettled : Unsettled rule) :
    ∃ rule', acts.foldlM decodeNlattrTcActCb rule = .ok rule' ∧
      Reads rule rule' (∀ a ∈ acts, ActionHandled a) (actionsTraits acts) := by
  induction acts generalizing rule with
  | nil =>
    exact ⟨rule, rfl, (Reads.same unsettled).congr ⟨fun _ => by simp, fun _ => trivial⟩
      fun _ => rfl⟩
  | cons a acts ih =>
    obtain ⟨here, valid⟩ := List.forall_mem_cons.mp valid
    obtain ⟨first, good⟩ := List.forall_mem_cons.mp good
    obtain ⟨rule₁, ran, reads⟩ := act_reads here first unsettled
    obtain ⟨rule', rest, others⟩ := ih valid good reads.unsettled
    refine ⟨rule', ?_, (reads.trans others).congr List.forall_mem_cons.symm fun _ => rfl⟩
    rw [List.foldlM_cons, ran]
    exact rest

end Actions

/-! ## Matches -/

section Matches

variable {rule : TcRule} {options : Bytes}

/-- A payload starts as a mask does: full octets only, or full octets and one with leading ones. -/
def MaskStart (bytes : Bytes) : Prop :=
  (∀ octet ∈ bytes, octet = 0xff) ∨
    ∃ full k behind, bytes = full ++ maskOctet k :: behind ∧ k < 8 ∧ ∀ octet ∈ full, octet = 0xff

/-- A mask is there and starts as a mask does. -/
def MaskPrefix (mask : Option Bytes) : Prop := ∃ bytes ∈ mask, MaskStart bytes

/-- A full octet changes nothing. -/
theorem maskStart_full {bytes : Bytes} : MaskStart (0xff :: bytes) ↔ MaskStart bytes := by
  constructor
  · rintro (full | ⟨full, k, behind, split, less, ones⟩)
    · exact .inl fun octet inside => full octet (List.mem_cons_of_mem _ inside)
    · cases full with
      | nil =>
        have head : maskOctet k = 0xff := (List.cons.inj split).1.symm
        exact absurd head (by interval_cases k <;> decide)
      | cons octet full =>
        exact .inr ⟨full, k, behind, (List.cons.inj split).2, less,
          fun other inside => ones other (List.mem_cons_of_mem _ inside)⟩
  · rintro (full | ⟨full, k, behind, split, less, ones⟩)
    · exact .inl (List.forall_mem_cons.mpr ⟨rfl, full⟩)
    · exact .inr ⟨0xff :: full, k, behind, by rw [split, List.cons_append], less,
        List.forall_mem_cons.mpr ⟨rfl, ones⟩⟩

/-- The loop of `count_ones` returns a number for what starts as a mask does. -/
theorem countOnesLoop_maskStart {bytes : Bytes} {ret : UInt8} :
    countOnesLoop bytes ret ≠ none ↔ MaskStart bytes := by
  induction bytes generalizing ret with
  | nil => simp [countOnesLoop, MaskStart]
  | cons octet bytes ih =>
    by_cases full : octet = 0xff
    · subst full
      rw [maskStart_full, ← @ih (ret + 8), countOnesLoop, if_pos rfl]
    · by_cases known : ∃ k < 8, octet = maskOctet k
      · obtain ⟨k, less, rfl⟩ := known
        have start : MaskStart (maskOctet k :: bytes) :=
          .inr ⟨[], k, bytes, rfl, less, fun _ inside => absurd inside List.not_mem_nil⟩
        simp [countOnesLoop_maskOctet less, start]
      · have other : ¬ MaskStart (octet :: bytes) := by
          rintro (ones | ⟨before, k, behind, split, less, ones⟩)
          · exact full (ones octet List.mem_cons_self)
          · cases before with
            | nil => exact known ⟨k, less, (List.cons.inj split).1⟩
            | cons first before =>
              have head : octet = first := (List.cons.inj split).1
              exact full (head.trans (ones first List.mem_cons_self))
        simp [countOnesLoop_other full fun k less same => known ⟨k, less, same⟩, other]

/-- The traits of an address that is matched, or of its family alone. -/
def addrTraits (dst : Option Bytes) : UInt32 := haveAf ||| if dst.isSome then haveIp else 0

/-- `count_ones` counts the bits of a prefix, or marks the rule. -/
theorem countOnes_reads (mask : Option Bytes) (unsettled : Unsettled rule) :
    ∃ len rule', countOnes mask rule = .ok (len, rule') ∧
      Reads rule rule' (MaskPrefix mask) 0 := by
  unfold countOnes
  cases counted : mask.bind fun data => countOnesLoop data 0 with
  | some len =>
    obtain ⟨bytes, present, ones⟩ := Option.bind_eq_some_iff.mp counted
    have known : MaskPrefix mask :=
      ⟨bytes, present, (@countOnesLoop_maskStart bytes 0).mp (by simp [ones])⟩
    exact ⟨len, rule, rfl, (Reads.same unsettled).congr (by simp [known]) fun _ => rfl⟩
  | none =>
    have unknown : ¬ MaskPrefix mask := by
      rintro ⟨bytes, present, ones⟩
      have mask_eq : mask = some bytes := present
      rw [mask_eq] at counted
      exact countOnesLoop_maskStart.mpr ones counted
    obtain ⟨rule', marked, reads⟩ := @Reads.mark rule _ 0 unsettled unknown
    refine ⟨0, rule', ?_, reads⟩
    simp only [marked, ok_bind]
    rfl

/-- The address of a family. -/
theorem decodeFlowerAddr_reads {dst mask : Option Bytes} {af : UInt8} {width : Nat}
    (family : af = afInet ∨ af = afInet6) (fits : ∀ bytes ∈ dst, width ≤ bytes.length)
    (unsettled : Unsettled rule) :
    ∃ rule', decodeFlowerAddr dst mask af width rule = .ok rule' ∧
      Reads rule rule' (∀ bytes ∈ dst, MaskPrefix mask) (addrTraits dst) := by
  have begun : Reads rule ({ rule with afAddr := { rule.afAddr with af } }.addTraits haveAf) True
      haveAf := .add unsettled rfl rfl
  unfold decodeFlowerAddr
  cases dst with
  | none => exact ⟨_, rfl, begun.congr (by simp) fun _ => by simp [addrTraits]⟩
  | some bytes =>
    obtain ⟨len, rule₁, counted, reads⟩ := countOnes_reads mask begun.unsettled
    have addr : addrAt bytes width = .ok (BitVec.ofNat 128
        (beNat (bytes.take width ++ List.replicate (16 - width) 0))) := by
      unfold addrAt
      rw [require, if_pos (fits bytes rfl)]
      rfl
    obtain ⟨built, made⟩ : ∃ built, buildAfAddr af (some (BitVec.ofNat 128
        (beNat (bytes.take width ++ List.replicate (16 - width) 0)))) len = .ok built := by
      rcases family with rfl | rfl
      · exact ⟨_, rfl⟩
      · exact ⟨_, rfl⟩
    have ended : Reads rule₁ ({ rule₁ with afAddr := built }.addTraits haveIp) True haveIp :=
      .add reads.unsettled rfl rfl
    refine ⟨_, ?_, ((begun.trans reads).trans ended).congr (by simp) fun _ => ?_⟩
    · simp only [counted, ok_bind, addr, made, decoding, Except.mapError]
      rfl
    · simp [addrTraits]

/-- The part of `decode_flower` for `TCA_FLOWER_FLAGS`. -/
def decodeFlowerFlags (tb : AttrTable) (rule : TcRule) : Except Stop TcRule :=
  match tb 22 with
  | some flags => do pure { rule with flowerFlags := ← mnlAttrGetU32 flags }
  | none => pure rule

/-- The part of `decode_flower` for `TCA_FLOWER_KEY_IP_TTL`. -/
def decodeFlowerTtl (tb : AttrTable) (rule : TcRule) : Except Stop TcRule :=
  match tb 75 with
  | some ttl => do
    if (← readAt ttl 0 1) = 1 then pure (rule.addTraits haveTtlCheck)
    else decoding (tcRuleMarkAlien rule)
  | none => pure rule

/-- The part of `decode_flower` for the Ethernet types and the addresses. -/
def decodeFlowerEther (tb : AttrTable) (rule : TcRule) : Except Stop TcRule := do
  let vlanEthertype ← if (tb 25).isSome then htons <$> mnlAttrGetU16 (tb 25) else pure 0
  let ethertype ← if (tb 8).isSome then htons <$> mnlAttrGetU16 (tb 8) else pure 0
  if 0 < vlanEthertype ∧ vlanEthertype = ethertype then
    if vlanEthertype = ethPIp then decodeFlowerAddr (tb 12) (tb 13) afInet 4 rule
    else if vlanEthertype = ethPIpv6 then decodeFlowerAddr (tb 16) (tb 17) afInet6 16 rule
    else decoding (tcRuleMarkAlien rule)
  else decoding (tcRuleMarkAlien rule)

/-- The part for the TTL, and what comes after it. -/
theorem decodeFlowerTtl_then {tb : AttrTable} {next : TcRule → Except Stop TcRule} :
    (match tb 75 with
      | some ttl => do
        if (← readAt ttl 0 1) = 1 then next (rule.addTraits haveTtlCheck)
        else
          let rule ← decoding (tcRuleMarkAlien rule)
          next rule
      | none => next rule) = decodeFlowerTtl tb rule >>= next := by
  unfold decodeFlowerTtl
  cases tb 75 with
  | none => rfl
  | some ttl =>
    dsimp only
    cases readAt ttl 0 1 with
    | error stop => rfl
    | ok value =>
      simp only [ok_bind]
      split <;> rfl

/-- The parts in order. -/
theorem decodeFlowerMatch_eq (tb : AttrTable) (rule : TcRule) :
    decodeFlowerMatch tb rule = decodeFlowerFlags tb rule >>= fun rule =>
      decodeFlowerTtl tb rule >>= decodeFlowerEther tb := by
  unfold decodeFlowerMatch decodeFlowerFlags
  cases tb 22 with
  | none => exact decodeFlowerTtl_then
  | some flags =>
    dsimp only
    cases mnlAttrGetU32 flags with
    | error stop => rfl
    | ok word => exact decodeFlowerTtl_then

/-- A table has the attributes of the options. -/
def TableOfOptions (options : Bytes) (tb : AttrTable) : Prop :=
  ∀ type ≤ tcFlowerAttrTypes.max, tcFlowerAttrTypes.type type ≠ .unspec →
    tb type = attrIn options type

/-- `TCA_FLOWER_FLAGS` is read without marking the rule. -/
theorem decodeFlowerFlags_reads {tb : AttrTable} (valid : Valid tcFlowerAttrTypes options)
    (entries : TableOfOptions options tb) (unsettled : Unsettled rule) :
    ∃ rule', decodeFlowerFlags tb rule = .ok rule' ∧ Reads rule rule' True 0 := by
  unfold decodeFlowerFlags
  rw [entries 22 (by decide) (by decide)]
  cases present : attrIn options 22 with
  | none => exact ⟨rule, rfl, .same unsettled⟩
  | some flags =>
    have size := valid.attrIn (by decide) (by decide) present
    have four : flags.length = 4 := by simpa [mnlAttrValidate, tcFlowerAttrTypes] using size
    have word : readAt flags 0 4 = .ok (wordAt flags 0 4) := readAt_fits (by omega)
    refine ⟨{ rule with flowerFlags := UInt32.ofNat (wordAt flags 0 4) }, ?_, ?_⟩
    · simp only [mnlAttrGetU32, word, Functor.map, Except.map, ok_bind]
      rfl
    · exact .add unsettled rfl (by simp)

/-- The traits of a TTL match. -/
def ttlTraits (options : Bytes) : UInt32 := if (attrIn options 75).isSome then haveTtlCheck else 0

/-- A TTL match is for TTL 1, or the rule is marked. -/
theorem decodeFlowerTtl_reads {tb : AttrTable} (valid : Valid tcFlowerAttrTypes options)
    (entries : TableOfOptions options tb) (unsettled : Unsettled rule) :
    ∃ rule', decodeFlowerTtl tb rule = .ok rule' ∧
      Reads rule rule' (∀ ttl ∈ attrIn options 75, wordAt ttl 0 1 = 1) (ttlTraits options) := by
  unfold decodeFlowerTtl ttlTraits
  rw [entries 75 (by decide) (by decide)]
  cases present : attrIn options 75 with
  | none => exact ⟨rule, rfl, (Reads.same unsettled).congr (by simp) fun _ => rfl⟩
  | some ttl =>
    have size := valid.attrIn (by decide) (by decide) present
    have one : ttl.length = 1 := by simpa [mnlAttrValidate, tcFlowerAttrTypes] using size
    have byte : readAt ttl 0 1 = .ok (wordAt ttl 0 1) := readAt_fits (by omega)
    simp only [byte, ok_bind]
    by_cases checked : wordAt ttl 0 1 = 1
    · rw [if_pos checked]
      have added : Reads rule (rule.addTraits haveTtlCheck) True haveTtlCheck :=
        .add unsettled rfl rfl
      exact ⟨_, rfl, added.congr (by simp [checked]) fun _ => rfl⟩
    · rw [if_neg checked]
      apply Reads.mark unsettled
      simp [checked]

/-- A 16 bit number in network order, zero where it is absent. -/
def u16In (options : Bytes) (type : Nat) : UInt16 :=
  match attrIn options type with
  | some number => htons (UInt16.ofNat (wordAt number 0 2))
  | none => 0

/-- The VLAN's Ethernet type is present and the same as the Ethernet type. -/
def EtherMatched (options : Bytes) (ethertype : UInt16) : Prop :=
  0 < ethertype ∧ u16In options 25 = ethertype ∧ u16In options 8 = ethertype

/-- An IPv6 address that is matched has all its bytes. -/
def MatchDecodable (options : Bytes) : Prop :=
  EtherMatched options ethPIpv6 → ∀ dst ∈ attrIn options 16, 16 ≤ dst.length

/-- The Ethernet types are those of IPv4 or IPv6, and an address comes with a prefix mask. -/
def EtherHandled (options : Bytes) : Prop :=
  (EtherMatched options ethPIp ∧ ∀ dst ∈ attrIn options 12, MaskPrefix (attrIn options 13)) ∨
    (EtherMatched options ethPIpv6 ∧ ∀ dst ∈ attrIn options 16, MaskPrefix (attrIn options 17))

/-- The traits of the Ethernet types and the address. -/
def etherTraits (options : Bytes) : UInt32 :=
  addrTraits (if u16In options 25 = ethPIp then attrIn options 12 else attrIn options 16)

/-- What comes after an optional number. -/
theorem present_bind (present : Bool) (read : Except Stop UInt16)
    (next : UInt16 → Except Stop TcRule) :
    (if present then read >>= next else pure 0 >>= next) =
      (if present then read else pure 0) >>= next := by
  cases present <;> rfl

/-- The Ethernet types are read. -/
theorem decodeFlowerEther_eq {tb : AttrTable} (valid : Valid tcFlowerAttrTypes options)
    (entries : TableOfOptions options tb) :
    decodeFlowerEther tb rule =
      if 0 < u16In options 25 ∧ u16In options 25 = u16In options 8 then
        if u16In options 25 = ethPIp then
          decodeFlowerAddr (attrIn options 12) (attrIn options 13) afInet 4 rule
        else if u16In options 25 = ethPIpv6 then
          decodeFlowerAddr (attrIn options 16) (attrIn options 17) afInet6 16 rule
        else decoding (tcRuleMarkAlien rule)
      else decoding (tcRuleMarkAlien rule) := by
  have number (type : Nat) (which : type = 8 ∨ type = 25) :
      (if (attrIn options type).isSome then htons <$> mnlAttrGetU16 (attrIn options type)
        else pure 0) = .ok (u16In options type) := by
    have typed : type ≤ tcFlowerAttrTypes.max ∧ tcFlowerAttrTypes.type type = .u16 := by
      rcases which with rfl | rfl <;> exact ⟨by decide, rfl⟩
    unfold u16In
    cases present : attrIn options type with
    | none => rfl
    | some found =>
      have size := valid.attrIn typed.1 (by simp [typed.2]) present
      rw [typed.2] at size
      have two : found.length = 2 := by simpa [mnlAttrValidate] using size
      have word : readAt found 0 2 = .ok (wordAt found 0 2) := readAt_fits (by omega)
      simp [mnlAttrGetU16, word, Functor.map, Except.map]
  have first := number 25 (.inr rfl)
  have second := number 8 (.inl rfl)
  rw [← entries 25 (by decide) (by decide)] at first
  rw [← entries 8 (by decide) (by decide)] at second
  rw [← entries 12 (by decide) (by decide), ← entries 13 (by decide) (by decide),
    ← entries 16 (by decide) (by decide), ← entries 17 (by decide) (by decide)]
  unfold decodeFlowerEther
  dsimp only
  rw [present_bind, first, ok_bind, present_bind, second, ok_bind]

/-- The Ethernet types and the address are handled, or the rule is marked. -/
theorem decodeFlowerEther_reads {tb : AttrTable} (valid : Valid tcFlowerAttrTypes options)
    (entries : TableOfOptions options tb) (good : MatchDecodable options)
    (unsettled : Unsettled rule) :
    ∃ rule', decodeFlowerEther tb rule = .ok rule' ∧
      Reads rule rule' (EtherHandled options) (etherTraits options) := by
  have apart : ethPIp ≠ ethPIpv6 := by decide
  rw [decodeFlowerEther_eq valid entries]
  unfold etherTraits
  by_cases matched : 0 < u16In options 25 ∧ u16In options 25 = u16In options 8
  · obtain ⟨positive, same⟩ := matched
    rw [if_pos ⟨positive, same⟩]
    by_cases v4 : u16In options 25 = ethPIp
    · rw [if_pos v4, if_pos v4]
      have fits : ∀ dst ∈ attrIn options 12, 4 ≤ dst.length := by
        intro dst present
        have size := valid.attrIn (by decide) (by decide) present
        have four : dst.length = 4 := by simpa [mnlAttrValidate, tcFlowerAttrTypes] using size
        omega
      obtain ⟨rule', ran, reads⟩ := decodeFlowerAddr_reads (.inl rfl) fits unsettled
      refine ⟨rule', ran, reads.congr ⟨fun prefixes => ?_, ?_⟩ fun _ => rfl⟩
      · exact .inl ⟨⟨v4 ▸ positive, v4, same ▸ v4⟩, prefixes⟩
      · rintro (⟨-, prefixes⟩ | ⟨⟨-, v6, -⟩, -⟩)
        · exact prefixes
        · exact absurd (v4.symm.trans v6) apart
    · rw [if_neg v4, if_neg v4]
      by_cases v6 : u16In options 25 = ethPIpv6
      · have ether : EtherMatched options ethPIpv6 := ⟨v6 ▸ positive, v6, same ▸ v6⟩
        rw [if_pos v6]
        obtain ⟨rule', ran, reads⟩ := decodeFlowerAddr_reads (.inr rfl) (good ether) unsettled
        refine ⟨rule', ran, reads.congr ⟨fun prefixes => .inr ⟨ether, prefixes⟩, ?_⟩ fun _ => rfl⟩
        rintro (⟨⟨-, v4', -⟩, -⟩ | ⟨-, prefixes⟩)
        · exact absurd v4' v4
        · exact prefixes
      · rw [if_neg v6]
        apply Reads.mark unsettled
        rintro (⟨⟨-, v4', -⟩, -⟩ | ⟨⟨-, v6', -⟩, -⟩)
        · exact v4 v4'
        · exact v6 v6'
  · rw [if_neg matched]
    apply Reads.mark unsettled
    rintro (⟨⟨positive, first, second⟩, -⟩ | ⟨⟨positive, first, second⟩, -⟩)
    · exact matched ⟨first.symm ▸ positive, first.trans second.symm⟩
    · exact matched ⟨first.symm ▸ positive, first.trans second.symm⟩

/-- The match attributes are handled. -/
def MatchHandled (options : Bytes) : Prop :=
  (∀ ttl ∈ attrIn options 75, wordAt ttl 0 1 = 1) ∧ EtherHandled options

/-- The match attributes. -/
theorem decodeFlowerMatch_reads {tb : AttrTable} (valid : Valid tcFlowerAttrTypes options)
    (entries : TableOfOptions options tb) (good : MatchDecodable options)
    (unsettled : Unsettled rule) :
    ∃ rule', decodeFlowerMatch tb rule = .ok rule' ∧
      Reads rule rule' (MatchHandled options) (ttlTraits options ||| etherTraits options) := by
  obtain ⟨rule₁, flags, first⟩ := decodeFlowerFlags_reads valid entries unsettled
  obtain ⟨rule₂, ttl, second⟩ := decodeFlowerTtl_reads valid entries first.unsettled
  obtain ⟨rule', ether, third⟩ := decodeFlowerEther_reads valid entries good second.unsettled
  refine ⟨rule', ?_, ((first.trans second).trans third).congr ?_ fun _ => ?_⟩
  · rw [decodeFlowerMatch_eq, flags, ok_bind, ttl, ok_bind, ether]
  · unfold MatchHandled
    rw [true_and]
  · rw [UInt32.zero_or]

end Matches

/-! ## Flower filters -/

section Flower

variable {rule : TcRule} {options : Bytes}

/-- The actions of a flower filter. -/
def flowerActions (options : Bytes) : List Attr := parse ((attrIn options 3).getD [])

/-- The attributes of a flower filter are valid, and so are those of its actions. -/
def FlowerValid (options : Bytes) : Prop :=
  Valid tcFlowerAttrTypes options ∧ ∀ a ∈ flowerActions options, ActionValid a

/-- What `decode_flower` needs. -/
def FlowerDecodable (options : Bytes) : Prop :=
  (∀ a ∈ flowerActions options, ActionDecodable a) ∧ MatchDecodable options

/-- A flower filter for which the rule is not marked. -/
def FlowerHandled (options : Bytes) : Prop :=
  attrIn options 3 ≠ none ∧ (∀ a ∈ flowerActions options, ActionHandled a) ∧ MatchHandled options

/-- The traits of a flower filter. -/
def flowerTraits (options : Bytes) : UInt32 :=
  actionsTraits (flowerActions options) ||| (ttlTraits options ||| etherTraits options)

/-- The actions of a flower filter, or the mark where it has none. -/
theorem flowerActions_read {tb : AttrTable} (valid : FlowerValid options)
    (entries : TableOfOptions options tb) (good : ∀ a ∈ flowerActions options, ActionDecodable a)
    (unsettled : Unsettled rule) :
    ∃ rule', (if (tb 3).isSome then mnlAttrParseNested (tb 3) decodeNlattrTcActCb rule
        else decoding (tcRuleMarkAlien rule)) = .ok rule' ∧
      Reads rule rule' (attrIn options 3 ≠ none ∧ ∀ a ∈ flowerActions options, ActionHandled a)
        (actionsTraits (flowerActions options)) := by
  rw [entries 3 (by decide) (by decide)]
  unfold flowerActions at good ⊢
  cases present : attrIn options 3 with
  | none =>
    apply Reads.mark unsettled
    simp
  | some acts =>
    have validActs := valid.2
    unfold flowerActions at validActs
    rw [present] at validActs good
    obtain ⟨rule', ran, reads⟩ := acts_read validActs good unsettled
    exact ⟨rule', ran, reads.congr (by simp) fun _ => rfl⟩

/-- The parts of `decode_flower` in order. -/
theorem decodeFlower_eq {tb : AttrTable}
    (parsed : mnlAttrParse options (decodeNlattr tcFlowerAttrTypes) AttrTable.empty = .ok tb) :
    decodeFlower options rule =
      (if (tb 3).isSome then mnlAttrParseNested (tb 3) decodeNlattrTcActCb rule
        else decoding (tcRuleMarkAlien rule)) >>= decodeFlowerMatch tb := by
  unfold decodeFlower
  rw [parsed, ok_bind]
  split <;> rfl

/-- A decodable flower filter. -/
theorem decodeFlower_reads (valid : FlowerValid options) (good : FlowerDecodable options)
    (unsettled : Unsettled rule) :
    ∃ rule', decodeFlower options rule = .ok rule' ∧
      Reads rule rule' (FlowerHandled options) (flowerTraits options) := by
  obtain ⟨tb, parsed, entries⟩ := valid.1.parse fun _ _ _ => rfl
  obtain ⟨rule₁, acted, first⟩ := flowerActions_read valid entries good.1 unsettled
  obtain ⟨rule', matched, second⟩ :=
    decodeFlowerMatch_reads valid.1 entries good.2 first.unsettled
  refine ⟨rule', ?_, (first.trans second).congr and_assoc fun _ => rfl⟩
  rw [decodeFlower_eq parsed, acted, ok_bind, matched]

end Flower

/-! ## The filters of the daemon -/

section DaemonFilters

/-- The attribute of the destination in a family, the one of its mask, and their size. -/
def dstType (af : UInt8) : Nat := if af = afInet then 12 else 16

def maskType (af : UInt8) : Nat := if af = afInet then 13 else 17

def addrWidth (af : UInt8) : Nat := if af = afInet then 4 else 16

/-- The family that is not meant. -/
def otherAf (af : UInt8) : UInt8 := if af = afInet then afInet6 else afInet

/-- No destination is matched, or one under a mask of ones with only zeros behind them. -/
def DstMatched (dst mask : Option Bytes) (width : Nat) : Prop :=
  (dst = none ∧ mask = none) ∨ ∃ addr ones n, dst = some addr ∧ mask = some ones ∧
    addr.length = width ∧ ones.length = width ∧ IsMask n ones

/-- The TTL is not matched, or all its bits are, and it is 1. -/
def TtlMatched (ttl mask : Option Bytes) : Prop :=
  (ttl = none ∧ mask = none) ∨ (ttl = some [1] ∧ mask = some [0xff])

/-- The match attributes of the daemon's filters, flags and counters included. -/
def flowerMeanings : List Nat := [3, 8, 12, 13, 16, 17, 22, 25, 75, 76, 86]

/-- A filter matches a family, and besides at most a destination of it and the TTL. -/
structure DaemonMatch (options : Bytes) (af : UInt8) : Prop where
  family : af = afInet ∨ af = afInet6
  ether : EtherMatched options (ethTypeOf af)
  dst : DstMatched (attrIn options (dstType af)) (attrIn options (maskType af)) (addrWidth af)
  ttl : TtlMatched (attrIn options 75) (attrIn options 76)
  otherDst : attrIn options (dstType (otherAf af)) = none
  otherMask : attrIn options (maskType (otherAf af)) = none
  rest : ∀ a ∈ parse options, a.type ∈ flowerMeanings

/-- An option of an action holds a number of 32 bits at an offset. -/
def OptionWord (a : Attr) (type offset word : Nat) : Prop :=
  ∃ parms, actionOption (attrIn a.payload 2) type = some parms ∧ offset + 4 ≤ parms.length ∧
    wordAt parms offset 4 = word

/-- A `gact` that does one thing with every packet: it has no `TCA_GACT_PROB`. -/
structure AlwaysGact (a : Attr) (action : UInt32) : Prop where
  kind : actionKind a = some (ascii "gact")
  action : OptionWord a 2 8 action.toNat
  always : actionOption (attrIn a.payload 2) 3 = none

/-- A `vlan` that gives the 802.1Q tag another id, and goes on with the next action. -/
structure ModifiesVlan (a : Attr) : Prop where
  kind : actionKind a = some (ascii "vlan")
  pipe : OptionWord a 2 8 tcActPipe.toNat
  modify : OptionWord a 2 20 3
  id : ∃ id : UInt16, id ≠ 0 ∧ actionOption (attrIn a.payload 2) 3 = some (le 2 id.toNat)
  protocol : ∀ protocol ∈ actionOption (attrIn a.payload 2) 4,
    protocol = le 2 (htons ethP8021q).toNat

/-- A `pedit` that sets the three words of the Ethernet addresses and decrements the TTL, and
goes on with the next action. -/
structure RewritesHeaders (a : Attr) (af : UInt8) : Prop where
  kind : actionKind a = some (ascii "pedit")
  pipe : OptionWord a 4 8 tcActPipe.toNat
  size : 120 ≤ (peditSel (attrIn a.payload 2)).length
  count : peditNkeys (attrIn a.payload 2) = 4
  extended : ∃ htype, tcePeditTtlHtype af = some htype ∧
    peditEntries (attrIn a.payload 2) = [⟨1, 0⟩, ⟨1, 0⟩, ⟨1, 0⟩, ⟨htype, 1⟩]
  addresses : ∀ i < 3, (peditKey (peditSel (attrIn a.payload 2)) i).mask = 0 ∧
    (peditKey (peditSel (attrIn a.payload 2)) i).off = UInt32.ofNat i <<< 2
  ttl : peditKey (peditSel (attrIn a.payload 2)) 3 = tcePeditTtlKey af

/-- A `csum` that updates the checksum of the IPv4 header, and goes on with the next action. -/
structure UpdatesChecksum (a : Attr) : Prop where
  kind : actionKind a = some (ascii "csum")
  pipe : OptionWord a 1 8 tcActPipe.toNat
  header : OptionWord a 1 20 1

/-- A `mirred` that sends the packet out by an interface. -/
structure Redirects (a : Attr) (ifindex : UInt32) : Prop where
  kind : actionKind a = some (ascii "mirred")
  stolen : OptionWord a 2 8 tcActStolen.toNat
  redirect : OptionWord a 2 20 1
  out : OptionWord a 2 24 ifindex.toNat

/-- The actions of a filter that forwards packets by its own interface. -/
inductive Forwards (ifindex : UInt32) : UInt8 → List Attr → Prop
  | v4 {vlan pedit csum mirred : Attr} (tag : ModifiesVlan vlan)
      (headers : RewritesHeaders pedit afInet) (checksum : UpdatesChecksum csum)
      (out : Redirects mirred ifindex) : Forwards ifindex afInet [vlan, pedit, csum, mirred]
  | v6 {vlan pedit mirred : Attr} (tag : ModifiesVlan vlan)
      (headers : RewritesHeaders pedit afInet6) (out : Redirects mirred ifindex) :
      Forwards ifindex afInet6 [vlan, pedit, mirred]

/-- A match and actions that belong to one of the daemon's filters. -/
inductive DaemonActions (ifindex : UInt32) (options : Bytes) (af : UInt8) : Prop
  | forward (any : attrIn options (dstType af) = none) (anyTtl : attrIn options 75 = none)
      (acts : Forwards ifindex af (flowerActions options))
  | routeTrap (dst : attrIn options (dstType af) ≠ none) (anyTtl : attrIn options 75 = none)
      (act : Attr) (acts : flowerActions options = [act]) (trap : AlwaysGact act tcActTrap)
  | routeGoto (anyTtl : attrIn options 75 = none) (act : Attr) (chain : UInt32)
      (acts : flowerActions options = [act]) (small : chain < 0x10000000)
      (goto : AlwaysGact act (tcActGotoChain ||| chain))
  | ttlCheck (any : attrIn options (dstType af) = none) (ttl : attrIn options 75 ≠ none)
      (act : Attr) (acts : flowerActions options = [act]) (trap : AlwaysGact act tcActTrap)

/-- A flower filter for 802.1Q packets with a match and actions of the daemon. -/
def DaemonFilter (tcm : Tcmsg) (options : Bytes) : Prop :=
  tcm.info &&& 0xffff = (htons ethP8021q).toUInt32 ∧
    ∃ af, DaemonMatch options af ∧ DaemonActions tcm.ifindex options af

end DaemonFilters

/-! ## Messages -/

section Messages

variable {nlh : Nlmsg}

/-- The options of a flower filter message. -/
def flowerOptions (nlh : Nlmsg) : Option Bytes :=
  match attrIn nlh.attrs 1, attrIn nlh.attrs 2 with
  | some kind, some options => if mnlAttrGetStr kind = ascii "flower" then some options else none
  | _, _ => none

/-- Every attribute of a message that a decoder may look at passes the validation of its type. -/
def MessageValid (nlh : Nlmsg) : Prop :=
  Valid tcAttrTypes nlh.attrs ∧ ∀ options ∈ flowerOptions nlh, FlowerValid options

/-- A filter is one of the daemon's. -/
def Understood (nlh : Nlmsg) : Prop := ∃ options ∈ flowerOptions nlh, DaemonFilter nlh.tcm options

/-- The part of `try_decode_filter` for the kind of a new filter. -/
def decodeKind (kind options : Option Bytes) : Except Stop TcRule :=
  match kind, options with
  | some kind, some options =>
    if mnlAttrGetStr kind = ascii "flower" then decodeFlower options {}
    else decoding (tcRuleMarkAlien {})
  | _, _ => decoding (tcRuleMarkAlien {})

/-- The part of `try_decode_filter` after it. -/
def decodeRest (nlh : Nlmsg) (chain : Option Bytes) (tcr : TcRule) : Except Stop TcDecodedRule := do
  let chainNo ← match chain with
    | some chain => mnlAttrGetU32 chain
    | none => pure 0
  let tcr ← decoding (tcRuleSetType (tcRuleDetect tcr).1 (tcRuleDetect tcr).2)
  return { isDone := true, chainNo, prio := (tcHMaj nlh.tcm.info >>> 16).toUInt16, tcr }

/-- The parts in order. -/
theorem tryDecodeFilter_eq (new : nlh.type = rtmNewtfilter) (one : nlh.tcm.handle = 1)
    {tb : AttrTable}
    (parsed : mnlAttrParse nlh.attrs (decodeNlattr tcAttrTypes) AttrTable.empty = .ok tb) :
    tryDecodeFilter nlh = decodeKind (tb 1) (tb 2) >>= decodeRest nlh (tb 11) := by
  have nonzero : ¬ nlh.tcm.handle = 0 := by
    rw [one]
    decide
  unfold tryDecodeFilter
  rw [if_neg nonzero, require, if_pos one, ok_bind, parsed, ok_bind]
  generalize tb 1 = kind
  generalize tb 2 = options
  generalize tb 11 = chain
  simp only [new, if_true]
  unfold decodeKind
  cases kind with
  | none => cases chain <;> rfl
  | some kind =>
    cases options with
    | none => cases chain <;> rfl
    | some options =>
      dsimp only
      split <;> cases chain <;> rfl

instance (map : TypeMap) (payload : Bytes) : Decidable (Valid map payload) :=
  inferInstanceAs (Decidable (∀ a ∈ parse payload, _))

instance (options : Option Bytes) : Decidable (PeditValid options) :=
  inferInstanceAs (Decidable (_ ∧ _))

instance (a : Attr) : Decidable (ActionValid a) :=
  decidable_of_iff (_ ∧ _ ∧ _ ∧ _ ∧ _) ⟨fun ⟨own, gact, vlan, pedit, mirred⟩ =>
    ⟨own, gact, vlan, pedit, mirred⟩, fun valid =>
    ⟨valid.own, valid.gact, valid.vlan, valid.pedit, valid.mirred⟩⟩

instance (options : Bytes) : Decidable (FlowerValid options) := inferInstanceAs (Decidable (_ ∧ _))

instance (nlh : Nlmsg) : Decidable (MessageValid nlh) := inferInstanceAs (Decidable (_ ∧ _))

end Messages

end FlowerRoute
