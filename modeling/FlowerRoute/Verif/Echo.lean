import FlowerRoute.Verif.ForeignFilters
import FlowerRoute.Verif.Primitives

/-!
# The echo of a request

A kernel that echoes takes the part of the handler of the tests: the request is encoded for the
loopback, decoded and handled inside the call. No decoder asserts anything on a rule's state, so
what is echoed is the requested rule, or the handler's checks stop the run.
-/

namespace FlowerRoute

open Tlv Outcome

/-- Whatever a decoder returns, it is no failed assertion on the state of a rule. -/
abbrev CleanStop {α : Type} (result : Except Stop α) : Prop :=
  Ends (· ≠ Stop.fault .ruleState) (fun _ => True) result

section Decoders

variable {α : Type} {payload options : Bytes} {rule : TcRule}

/-- The faults of what a decoder calls. -/
theorem clean_decoding {result : Except Fault α} (clean : Clean result) :
    CleanStop (decoding result) := by
  cases result with
  | ok value => trivial
  | error fault => exact fun same => clean (Stop.fault.inj same)

theorem clean_tcRuleMarkAlien (rule : TcRule) : CleanStop (decoding (tcRuleMarkAlien rule)) := by
  apply clean_decoding
  rw [tcRuleMarkAlien, tcRuleSetType]
  split
  · trivial
  · split
    · trivial
    · exact Fault.noConfusion

theorem clean_readAt (offset width : Nat) : CleanStop (readAt payload offset width) := by
  rw [readAt]
  split
  · trivial
  · exact fun same => by cases same

theorem clean_mnlAttrGetU16 (attr : Option Bytes) : CleanStop (mnlAttrGetU16 attr) := by
  cases attr with
  | none => exact fun same => by cases same
  | some payload =>
    rw [mnlAttrGetU16]
    have read : CleanStop (readAt payload 0 2) := clean_readAt 0 2
    revert read
    cases readAt payload 0 2 with
    | ok value => exact fun _ => trivial
    | error stop => exact id

theorem clean_mnlAttrGetU32 (payload : Bytes) : CleanStop (mnlAttrGetU32 payload) := by
  rw [mnlAttrGetU32]
  have read : CleanStop (readAt payload 0 4) := clean_readAt 0 4
  revert read
  cases readAt payload 0 4 with
  | ok value => exact fun _ => trivial
  | error stop => exact id

theorem clean_decodeNlattr (map : TypeMap) (tb : AttrTable) (attr : Attr) :
    CleanStop (decodeNlattr map tb attr) := by
  rw [decodeNlattr]
  split
  · trivial
  · split
    · trivial
    · split
      · trivial
      · exact fun same => by cases same

/-- A loop over attributes is as clean as its callback. -/
theorem clean_mnlAttrParse {callback : α → Attr → Except Stop α}
    (clean : ∀ state attr, CleanStop (callback state attr)) (state : α) :
    CleanStop (mnlAttrParse payload callback state) :=
  ends_foldlM _ _ trivial fun attr _ state _ => clean state attr

theorem clean_mnlAttrParseNested {callback : α → Attr → Except Stop α}
    (clean : ∀ state attr, CleanStop (callback state attr)) (attr : Option Bytes) (state : α) :
    CleanStop (mnlAttrParseNested attr callback state) := by
  cases attr with
  | none => exact fun same => by cases same
  | some payload => exact clean_mnlAttrParse clean state

theorem clean_presentAttr (attr : Option Bytes) : CleanStop (presentAttr attr) := by
  cases attr with
  | none => exact fun same => by cases same
  | some payload => trivial

theorem clean_gact (attr : Option Bytes) : CleanStop (decodeNlattrTcActGactCb attr rule) := by
  refine faults_bind (clean_mnlAttrParseNested (clean_decodeNlattr _) _ _) fun tb => ?_
  refine faults_bind (clean_presentAttr _) fun p => faults_bind (clean_readAt _ _) fun word => ?_
  dsimp only
  split
  · trivial
  · split <;> trivial

theorem clean_vlan (attr : Option Bytes) : CleanStop (decodeNlattrTcActVlanCb attr rule) := by
  refine faults_bind (clean_mnlAttrParseNested (clean_decodeNlattr _) _ _) fun tb => ?_
  refine faults_bind (clean_presentAttr _) fun p => faults_bind (clean_readAt _ _) fun word => ?_
  have pushed : ∀ rule : TcRule, CleanStop (do
      let vlanId ← if (tb 3).isSome then mnlAttrGetU16 (tb 3) else pure 0
      if 0 < vlanId then return { rule.addTraits haveVlanMod with vlanId }
      else return rule : Except Stop TcRule) := by
    intro rule
    dsimp only
    split
    · refine faults_bind (clean_mnlAttrGetU16 _) fun vlanId => ?_
      split <;> trivial
    · refine faults_bind trivial fun vlanId => ?_
      split <;> trivial
  dsimp only
  split
  · exact faults_bind (clean_tcRuleMarkAlien _) pushed
  · exact faults_bind trivial pushed

theorem clean_peditKeyEx {nkeys : Nat} (keysEx : List MPeditKeyEx) (attr : Attr) :
    CleanStop (decodePeditKeyEx nkeys keysEx attr) := by
  refine faults_bind (clean_mnlAttrParse (clean_decodeNlattr _) _) fun tb => ?_
  refine faults_bind (clean_mnlAttrGetU16 _) fun htype => ?_
  refine faults_bind (faults_require fun same => by cases same) fun _ => ?_
  exact faults_bind (clean_mnlAttrGetU16 _) fun cmd => trivial

theorem clean_peditKey {i : Nat} {keyEx : MPeditKeyEx} :
    CleanStop (decodePeditKey payload i keyEx rule) := by
  have read : CleanStop (peditKeyAt payload i) :=
    faults_bind (clean_readAt _ _) fun _ => faults_bind (clean_readAt _ _) fun _ =>
      faults_bind (clean_readAt _ _) fun _ => trivial
  rw [decodePeditKey]
  split
  · split
    · trivial
    · refine faults_bind read fun key => ?_
      dsimp only
      split <;> trivial
  · split
    · split <;> trivial
    · trivial

theorem clean_peditKeys {keysEx : List MPeditKeyEx} {count i : Nat} :
    CleanStop (decodePeditKeys payload keysEx count i rule) := by
  induction count generalizing i rule with
  | zero => trivial
  | succ count ih =>
    refine faults_bind clean_peditKey fun decoded => ?_
    cases decoded with
    | none => exact clean_tcRuleMarkAlien rule
    | some rule => exact ih

theorem clean_pedit (attr : Option Bytes) : CleanStop (decodeNlattrTcActPeditCb attr rule) := by
  refine faults_bind (clean_mnlAttrParseNested (clean_decodeNlattr _) _ _) fun tb => ?_
  refine faults_bind (clean_presentAttr _) fun sel => ?_
  refine faults_bind (clean_presentAttr _) fun keys => faults_bind (clean_readAt _ _) fun nkeys => ?_
  refine faults_bind (clean_mnlAttrParse clean_peditKeyEx _) fun keysEx => ?_
  split
  · exact clean_tcRuleMarkAlien rule
  · exact clean_peditKeys

theorem clean_mirred (attr : Option Bytes) : CleanStop (decodeNlattrTcActMirredCb attr rule) := by
  refine faults_bind (clean_mnlAttrParseNested (clean_decodeNlattr _) _ _) fun tb => ?_
  refine faults_bind (clean_presentAttr _) fun p => faults_bind (clean_readAt _ _) fun word => ?_
  split
  · exact clean_tcRuleMarkAlien rule
  · trivial

/-- Every helper of an action is clean. -/
theorem clean_helper {helper : String × (Option Bytes → TcRule → Except Stop TcRule)}
    (known : helper ∈ tcActHelpers) (attr : Option Bytes) (rule : TcRule) :
    CleanStop (helper.2 attr rule) := by
  simp only [tcActHelpers, List.mem_cons, List.not_mem_nil, or_false] at known
  rcases known with rfl | rfl | rfl | rfl | rfl
  · exact clean_gact attr
  · exact clean_vlan attr
  · exact clean_pedit attr
  · exact clean_mirred attr
  · trivial

theorem clean_act (rule : TcRule) (attr : Attr) : CleanStop (decodeNlattrTcActCb rule attr) := by
  have entered : ∀ tb attr, CleanStop (decodeNlattrTcActAttrCb tb attr) := fun tb attr =>
    faults_bind (faults_require fun same => by cases same) fun _ => clean_decodeNlattr _ tb attr
  refine faults_bind (clean_mnlAttrParse entered _) fun tb => ?_
  split
  · exact clean_tcRuleMarkAlien rule
  · split
    · next found => exact clean_helper (List.mem_of_find?_eq_some found) _ rule
    · trivial

theorem clean_flowerAddr (dst mask : Option Bytes) (af : UInt8) (width : Nat) :
    CleanStop (decodeFlowerAddr dst mask af width rule) := by
  unfold decodeFlowerAddr
  cases dst with
  | none => trivial
  | some dst =>
    refine faults_bind ?_ fun counted => ?_
    · rw [countOnes]
      split
      · trivial
      · exact faults_bind (clean_tcRuleMarkAlien _) fun _ => trivial
    · refine faults_bind (faults_bind (faults_require fun same => by cases same) fun _ => trivial)
        fun addr => faults_bind (clean_decoding ?_) fun _ => trivial
      rw [buildAfAddr]
      split
      · trivial
      · split
        · trivial
        · exact Fault.noConfusion

theorem clean_flowerEther (tb : AttrTable) (rule : TcRule) :
    CleanStop (decodeFlowerEther tb rule) := by
  have ethertype : ∀ attr : Option Bytes,
      CleanStop (if attr.isSome then htons <$> mnlAttrGetU16 attr else pure 0) := by
    intro attr
    split
    · have read := clean_mnlAttrGetU16 attr
      revert read
      cases mnlAttrGetU16 attr with
      | ok value => exact fun _ => trivial
      | error stop => exact id
    · trivial
  unfold decodeFlowerEther
  dsimp only
  rw [present_bind]
  refine faults_bind (ethertype _) fun vlanEthertype => ?_
  rw [present_bind]
  refine faults_bind (ethertype _) fun ethertype => ?_
  split
  · split
    · exact clean_flowerAddr _ _ _ _
    · split
      · exact clean_flowerAddr _ _ _ _
      · exact clean_tcRuleMarkAlien rule
  · exact clean_tcRuleMarkAlien rule

theorem clean_flowerMatch (tb : AttrTable) (rule : TcRule) :
    CleanStop (decodeFlowerMatch tb rule) := by
  rw [decodeFlowerMatch_eq]
  refine faults_bind ?_ fun rule => faults_bind ?_ fun rule => clean_flowerEther tb rule
  · unfold decodeFlowerFlags
    split
    · exact faults_bind (clean_mnlAttrGetU32 _) fun _ => trivial
    · trivial
  · unfold decodeFlowerTtl
    split
    · refine faults_bind (clean_readAt _ _) fun ttl => ?_
      split
      · trivial
      · exact clean_tcRuleMarkAlien rule
    · trivial

theorem clean_flower (rule : TcRule) : CleanStop (decodeFlower options rule) := by
  refine faults_bind (clean_mnlAttrParse (clean_decodeNlattr _) _) fun tb => ?_
  split
  · exact faults_bind (clean_mnlAttrParseNested clean_act _ _) fun rule => clean_flowerMatch tb rule
  · exact faults_bind (clean_tcRuleMarkAlien rule) fun rule => clean_flowerMatch tb rule

/-- A new filter is decoded without an assertion on a rule's state. -/
theorem clean_decodeFilter2 {nlh : Nlmsg} (new : nlh.type = rtmNewtfilter)
    (one : nlh.tcm.handle = 1) : Clean (decodeFilter2 nlh) := by
  have decoder : CleanStop (tryDecodeFilter nlh) := by
    have clean : CleanStop (mnlAttrParse nlh.attrs (decodeNlattr tcAttrTypes) AttrTable.empty) :=
      clean_mnlAttrParse (clean_decodeNlattr _) _
    cases parsed : mnlAttrParse nlh.attrs (decodeNlattr tcAttrTypes) AttrTable.empty with
    | error stop =>
      rw [parsed] at clean
      have stopped : tryDecodeFilter nlh = .error stop := by
        unfold tryDecodeFilter
        rw [if_neg (by rw [one]; decide), require, if_pos one, ok_bind, parsed]
        rfl
      rw [stopped]
      exact clean
    | ok tb =>
      rw [tryDecodeFilter_eq new one parsed]
      have settled : ∀ tcr : TcRule, CleanStop
          (decoding (tcRuleSetType (tcRuleDetect tcr).1 (tcRuleDetect tcr).2)) := by
        intro tcr
        apply clean_decoding
        rw [tcRuleSetType]
        split
        · trivial
        · split
          · trivial
          · exact Fault.noConfusion
      refine faults_bind ?_ fun tcr => ?_
      · unfold decodeKind
        split
        · split
          · exact clean_flower _
          · exact clean_tcRuleMarkAlien _
        · exact clean_tcRuleMarkAlien _
      · unfold decodeRest
        split
        · refine faults_bind (clean_mnlAttrGetU32 _) fun chainNo => ?_
          exact faults_bind (settled tcr) fun _ => trivial
        · exact faults_bind trivial fun chainNo => faults_bind (settled tcr) fun _ => trivial
  unfold decodeFilter2
  revert decoder
  cases tryDecodeFilter nlh with
  | ok tdr => exact fun _ => trivial
  | error stop =>
    cases stop with
    | callbackError => exact fun _ => trivial
    | fault fault => exact fun clean same => clean (congrArg _ same)

end Decoders

section Handler

variable {c : Calls} {w : World} {tca : TcAction} {ifidx chainNo : UInt32} {prio : UInt16}
  {tcr : TcRule} {nlh : Nlmsg} {tdr : TcDecodedRule}

/-- A message that `decode_filter2` decodes is decoded. -/
theorem tryDecodeFilter_of (decoded : decodeFilter2 nlh = .ok (some tdr)) :
    tryDecodeFilter nlh = .ok tdr := by
  unfold decodeFilter2 at decoded
  split at decoded
  · next found => exact found.trans (congrArg _ (Option.some.inj (Except.ok.inj decoded)))
  · cases decoded
  · cases decoded

/-- A new filter is found where it was decoded. -/
theorem decodeNlmsgCb_found (new : nlh.type = rtmNewtfilter)
    (decoded : decodeFilter2 nlh = .ok (some tdr)) (done : tdr.isDone = true) :
    decodeNlmsgCb c nlh w = objRuleNetlinkFound c tdr.chainNo tdr.prio tdr.tcr w := by
  rw [decodeNlmsgCb, if_neg (by rw [new]; decide), if_pos (.inl new), decodeFilter,
    tryDecodeFilter_of decoded]
  dsimp only
  rw [if_pos done, if_neg (by rw [new]; decide)]

/-- A removed filter is gone. -/
theorem decodeNlmsgCb_gone (removed : nlh.type = rtmDeltfilter)
    (decoded : decodeFilter2 nlh = .ok (some tdr)) (done : tdr.isDone = true) :
    decodeNlmsgCb c nlh w = objRuleNetlinkGone c tdr.chainNo tdr.prio tdr.tcr w := by
  rw [decodeNlmsgCb, if_neg (by rw [removed]; decide), if_pos (.inr removed), decodeFilter,
    tryDecodeFilter_of decoded]
  dsimp only
  rw [if_pos done, if_pos removed]

/-- The head of an encoded rule. -/
theorem tcEncodeAddRule_head (encoded : tcEncodeAddRule ifidx chainNo prio tcr true = .ok nlh) :
    nlh.type = rtmNewtfilter ∧ nlh.tcm.handle = 1 := by
  obtain ⟨flower, -, encoded⟩ := bind_returned encoded
  obtain ⟨body, -, encoded⟩ := bind_returned encoded
  cases encoded
  exact ⟨rfl, rfl⟩

/-- What the handler does once its checks have passed. -/
theorem tcInstallHandler_checked (encoded : tcEncodeRule ifidx tca.chainNo tca.prio tca.tcr true =
      .ok nlh) (checked : tcInstallHandlerCheck nlh tca = .ok ()) :
    tcInstallHandler c nlh tca w = objRuleNotified c ⟨tca.chainNo, tca.prio, tca.tcr⟩ w := by
  rw [tcInstallHandler, checked, ok_bind]
  unfold tcInstallHandlerCheck at checked
  cases request : tca.tcr with
  | none =>
    rw [request] at encoded
    have drop : nlh = tcEncodeDropRule ifidx tca.chainNo tca.prio true :=
      (Except.ok.inj encoded).symm
    have decoded := decodeFilter2_drop ifidx tca.chainNo tca.prio
    rw [← drop] at decoded
    have removed : nlh.type = rtmDeltfilter := congrArg Nlmsg.type drop
    rw [decodeNlmsgCb_gone removed decoded rfl]
    unfold objRuleNotified
    rfl
  | some tcr =>
    rw [request] at encoded checked
    obtain ⟨tdr, decoded, same⟩ := bind_returned checked
    have equal := of_require same
    subst equal
    rw [decodeNlmsgCb_found (tcEncodeAddRule_head encoded).1 decoded rfl]
    unfold objRuleNotified
    rfl

/-- The handler acts as the report of what was requested, or stops at a fault that is no assertion
on a rule's state. -/
theorem tcInstallHandler_reports (encoded : tcEncodeRule ifidx tca.chainNo tca.prio tca.tcr true =
      .ok nlh) :
    (∃ fault, Admitted fault ∧ tcInstallHandler c nlh tca w = .error fault) ∨
      tcInstallHandler c nlh tca w = objRuleNotified c ⟨tca.chainNo, tca.prio, tca.tcr⟩ w := by
  have clean : Clean (tcInstallHandlerCheck nlh tca) := by
    unfold tcInstallHandlerCheck
    cases request : tca.tcr with
    | none => exact clean_require
    | some tcr =>
      rw [request] at encoded
      obtain ⟨new, one⟩ := tcEncodeAddRule_head encoded
      exact faults_bind (clean_decodeFilter2 new one) fun _ => clean_require
  cases checked : tcInstallHandlerCheck nlh tca with
  | ok _ => exact .inr (tcInstallHandler_checked encoded checked)
  | error fault =>
    rw [checked] at clean
    refine .inl ⟨fault, clean, ?_⟩
    rw [tcInstallHandler, checked]
    rfl

/-- The same for what is known of every returned value. -/
theorem tcInstallHandler_returns {post : World → Prop} (encoded : tcEncodeRule ifidx tca.chainNo
      tca.prio tca.tcr true = .ok nlh)
    (returns : Returns post (objRuleNotified c ⟨tca.chainNo, tca.prio, tca.tcr⟩ w)) :
    Returns post (tcInstallHandler c nlh tca w) := by
  rcases tcInstallHandler_reports (c := c) (w := w) encoded with ⟨fault, -, stopped⟩ | reports
  · rw [stopped]
    trivial
  · rw [reports]
    exact returns

/-- The checks of the handler pass for a rule that is decoded as it was encoded. -/
theorem tcInstallHandlerCheck_passes (encoded : tcEncodeRule ifidx tca.chainNo tca.prio tca.tcr true =
      .ok nlh) (trips : ∀ tcr ∈ tca.tcr, RoundTrips ifidx tca.chainNo tca.prio tcr) :
    tcInstallHandlerCheck nlh tca = .ok () := by
  unfold tcInstallHandlerCheck
  cases request : tca.tcr with
  | none =>
    rw [request] at encoded
    have drop : nlh = tcEncodeDropRule ifidx tca.chainNo tca.prio true :=
      (Except.ok.inj encoded).symm
    have removed : nlh.type = rtmDeltfilter := congrArg Nlmsg.type drop
    exact if_pos removed
  | some tcr =>
    obtain ⟨nlh', encoded', decoded⟩ := trips tcr request
    rw [request, encoded'] at encoded
    cases encoded
    dsimp only
    rw [decoded, ok_bind]
    exact if_pos rfl

end Handler

end FlowerRoute
