import FlowerRoute.Verif.ForeignFilters

/-!
# The daemon's own filters

What `tc_encode_rule` writes for a rule of the daemon is one of the filters that count as the
daemon's, so a filter of the daemon that is reported is understood.
-/

namespace FlowerRoute

open Tlv Outcome

section Attributes

variable {attrs : List Attr} {payload : Bytes}

/-- The attributes of a payload that was put together from them. -/
theorem attrIn_encodeAll (fits : ∀ a ∈ attrs, a.Fits) (type : Nat) :
    attrIn (encodeAll attrs) type = tableOf attrs type := by
  rw [attrIn, parse_encodeAll fits]

/-- A number is where it was put. -/
theorem wordAt_le {offset width n : Nat} (before after : Bytes)
    (split : payload = before ++ (le width n ++ after)) (place : before.length = offset)
    (bound : n < 256 ^ width) : wordAt payload offset width = n := by
  have read := readAt_le before after split place bound
  by_cases fits : offset + width ≤ payload.length
  · rw [readAt_fits fits] at read
    exact Except.ok.inj read
  · rw [readAt_beyond fits] at read
    cases read

/-- A 16 bit number is where it was put. -/
theorem wordAt_u16 (x : UInt16) : wordAt (le 2 x.toNat) 0 2 = x.toNat :=
  wordAt_le [] [] (by simp) rfl x.toNat_lt

end Attributes

section Actions

variable {kind : String} {helper : Option Bytes → TcRule → Except Stop TcRule}

/-- The kind and the options of an action that was put. -/
theorem tceAction_parts (options : List Attr) (member : (kind, helper) ∈ tcActHelpers)
    (short : (encodeAll options).length < 65000) (fits : ∀ a ∈ options, a.Fits)
    (actNo : Nat) :
    actionKind (tceAction actNo kind options) = some (ascii kind) ∧
      ∀ type, actionOption (attrIn (tceAction actNo kind options).payload 2) type =
        tableOf options type := by
  have name := tcActHelpers_name member
  have string : mnlAttrGetStr (ascii kind ++ [0]) = ascii kind := by
    simp only [tcActHelpers, List.mem_cons, Prod.mk.injEq, List.not_mem_nil, or_false] at member
    rcases member with ⟨rfl, -⟩ | ⟨rfl, -⟩ | ⟨rfl, -⟩ | ⟨rfl, -⟩ | ⟨rfl, -⟩ <;> decide
  have put : ∀ a ∈ [mnlAttrPutStrz 1 kind, mnlAttrNest 2 options], a.Fits := by
    simp only [List.mem_cons, List.not_mem_nil, or_false, forall_eq_or_imp, forall_eq, Attr.Fits,
      mnlAttrPutStrz, mnlAttrPut, mnlAttrNest, List.length_append, List.length_singleton]
    exact ⟨⟨by omega, by decide⟩, by omega, by decide⟩
  have second : attrIn (tceAction actNo kind options).payload 2 = some (encodeAll options) := by
    rw [tceAction, payload_mnlAttrNest, attrIn_encodeAll put]
    simp [mnlAttrPutStrz]
  refine ⟨?_, fun type => ?_⟩
  · rw [actionKind, tceAction, payload_mnlAttrNest, attrIn_encodeAll put]
    simp [mnlAttrPutStrz, string]
  · rw [second]
    exact attrIn_encodeAll fits type

/-- An option of an action that was put holds a number of 32 bits. -/
theorem OptionWord.put {a : Attr} {type offset : Nat} {parms : Bytes} (word : UInt32)
    (option : actionOption (attrIn a.payload 2) type = some parms) (before after : Bytes)
    (split : parms = before ++ (le 4 word.toNat ++ after)) (place : before.length = offset) :
    OptionWord a type offset word.toNat := by
  have bound : word.toNat < 256 ^ 4 := word.toNat_lt
  refine ⟨parms, option, ?_, wordAt_le before after split place bound⟩
  rw [split, List.length_append, List.length_append, length_le]
  omega

/-- The first fields of the parameters of an action hold its verdict. -/
theorem OptionWord.tcGen {a : Attr} {type : Nat} {action : UInt32} {rest : Bytes}
    (option : actionOption (attrIn a.payload 2) type = some (tcGen action ++ rest)) :
    OptionWord a type 8 action.toNat :=
  .put action option (le 4 0 ++ le 4 0) (le 4 0 ++ le 4 0 ++ rest)
    (by simp only [FlowerRoute.tcGen, List.append_assoc]) (by simp)

/-- The daemon's `gact` does one thing with every packet. -/
theorem gact_always (action : UInt32) :
    AlwaysGact (tceAction 1 "gact" [mnlAttrPut 2 (tcGen action)]) action := by
  obtain ⟨kind, parts⟩ := tceAction_parts [mnlAttrPut 2 (tcGen action)] (.head _)
    (by simp [align]) (by simp [Attr.Fits, mnlAttrPut]) 1
  have parms : tableOf [mnlAttrPut 2 (tcGen action)] 2 = some (tcGen action ++ []) := by simp
  exact ⟨kind, .tcGen ((parts 2).trans parms), (parts 3).trans rfl⟩

/-- `tce_modify_vlan_action` gives the tag another id. -/
theorem tceModifyVlanAction_modifies {vlanId : UInt16} (tagged : vlanId ≠ 0) (actNo : Nat) :
    ModifiesVlan (tceModifyVlanAction actNo vlanId) := by
  obtain ⟨kind, parts⟩ := tceAction_parts [
      mnlAttrPut 2 (tcGen tcActPipe ++ le 4 3), mnlAttrPutU16 3 vlanId] (.tail _ (.head _))
    (by simp [mnlAttrPutU16, align]) (by simp [Attr.Fits, mnlAttrPutU16, mnlAttrPut]) actNo
  have parms := (parts 2).trans rfl
  refine ⟨kind, .tcGen parms, ?_, ⟨vlanId, tagged, (parts 3).trans rfl⟩, ?_⟩
  · exact .put 3 parms (tcGen tcActPipe) [] (by simp) (by simp)
  · intro protocol present
    cases (parts 4).symm.trans present

/-- `tce_redirect_action` sends the packet out by the interface. -/
theorem tceRedirectAction_redirects (ifidx : UInt32) (actNo : Nat) :
    Redirects (tceRedirectAction ifidx actNo) ifidx := by
  obtain ⟨kind, parts⟩ := tceAction_parts [
      mnlAttrPut 2 (tcGen tcActStolen ++ (le 4 1 ++ le 4 ifidx.toNat))]
    (.tail _ (.tail _ (.tail _ (.head _)))) (by simp [align]) (by simp [Attr.Fits, mnlAttrPut]) actNo
  have parms := (parts 2).trans rfl
  refine ⟨kind, .tcGen parms, ?_, ?_⟩
  · exact .put 1 parms (tcGen tcActStolen) (le 4 ifidx.toNat) rfl (by simp)
  · exact .put ifidx parms (tcGen tcActStolen ++ le 4 1) [] (by simp) (by simp)

/-- `tce_csum_action` updates the checksum of the IPv4 header. -/
theorem tceCsumAction_updates (actNo : Nat) : UpdatesChecksum (tceCsumAction actNo) := by
  obtain ⟨kind, parts⟩ := tceAction_parts [
      mnlAttrPut 1 (tcGen tcActPipe ++ le 4 1)] (.tail _ (.tail _ (.tail _ (.tail _ (.head _)))))
    (by simp [align]) (by simp [Attr.Fits, mnlAttrPut]) actNo
  have parms := (parts 1).trans rfl
  exact ⟨kind, .tcGen parms, .put 1 parms (tcGen tcActPipe) [] (by simp) (by simp)⟩

/-- An extended key that was put is read as it was put. -/
theorem peditEntry_tcePeditKeyEx (cmd htype : UInt16) :
    peditEntry (tcePeditKeyEx cmd (some htype)) = ⟨htype, cmd⟩ := by
  have put : ∀ a ∈ [mnlAttrPutU16 2 cmd, mnlAttrPutU16 1 htype], a.Fits := by
    simp [Attr.Fits, mnlAttrPutU16, mnlAttrPut]
  have entry (type : Nat) : attrIn (tcePeditKeyEx cmd (some htype)).payload type =
      tableOf [mnlAttrPutU16 2 cmd, mnlAttrPutU16 1 htype] type := attrIn_encodeAll put type
  have first : tableOf [mnlAttrPutU16 2 cmd, mnlAttrPutU16 1 htype] 1 = some (le 2 htype.toNat) :=
    rfl
  have second : tableOf [mnlAttrPutU16 2 cmd, mnlAttrPutU16 1 htype] 2 = some (le 2 cmd.toNat) :=
    rfl
  simp only [peditEntry, entry, first, second, Option.getD_some, wordAt_u16, UInt16.ofNat_toNat]

/-- The four keys of a selector. -/
theorem peditKey_tcePeditSel (tcr : TcRule) :
    (∀ i < 3, peditKey (tcePeditSel tcr) i = tcePeditLladdrKey tcr i) ∧
      peditKey (tcePeditSel tcr) 3 = tcePeditTtlKey tcr.afAddr.af := by
  have key {i : Nat} (bound : i < 4) {key : PeditKey}
      (read : peditKeyAt (tcePeditSel tcr) i = .ok key) : peditKey (tcePeditSel tcr) i = key := by
    have fits : 24 + 24 * i + 12 ≤ (tcePeditSel tcr).length := by
      rw [length_tcePeditSel]
      omega
    exact Except.ok.inj ((peditKeyAt_fits fits).symm.trans read)
  obtain ⟨addresses, ttl⟩ := peditKeyAt_tcePeditSel tcr
  exact ⟨fun i bound => key (by omega) (addresses i bound), key (by decide) ttl⟩

/-- `tce_pedit_action` sets the Ethernet addresses and decrements the TTL. -/
theorem tcePeditAction_rewrites {tcr : TcRule}
    (family : tcr.afAddr.af = afInet ∨ tcr.afAddr.af = afInet6) (actNo : Nat) :
    RewritesHeaders (tcePeditAction actNo tcr) tcr.afAddr.af := by
  obtain ⟨htype, typed⟩ := tcePeditTtlHtype_some family
  generalize keys : [tcePeditKeyEx 0 (some 1), tcePeditKeyEx 0 (some 1), tcePeditKeyEx 0 (some 1),
    tcePeditKeyEx 1 (tcePeditTtlHtype tcr.afAddr.af)] = keyAttrs
  have short : (encodeAll keyAttrs).length = 80 := by
    simp [← keys, tcePeditKeyEx, mnlAttrNest, mnlAttrPutU16, mnlAttrPut, align, typed]
  have keysFit : ∀ k ∈ keyAttrs, k.Fits := by
    simp [← keys, Attr.Fits, tcePeditKeyEx, mnlAttrNest, mnlAttrPutU16, mnlAttrPut, align, typed]
  obtain ⟨kind, parts⟩ := tceAction_parts [
      mnlAttrNest 5 keyAttrs, mnlAttrPut 4 (tcePeditSel tcr)] (.tail _ (.tail _ (.head _)))
    (by simp [short, align]) (by simp [Attr.Fits, mnlAttrNest, mnlAttrPut, short]) actNo
  have action : tceAction actNo "pedit" [mnlAttrNest 5 keyAttrs, mnlAttrPut 4 (tcePeditSel tcr)] =
      tcePeditAction actNo tcr := by rw [← keys, tcePeditAction]
  rw [action] at kind parts
  have parms := (parts 4).trans rfl
  have extended : actionOption (attrIn (tcePeditAction actNo tcr).payload 2) 5 =
      some (encodeAll keyAttrs) := by simp [parts]
  have sel : peditSel (attrIn (tcePeditAction actNo tcr).payload 2) = tcePeditSel tcr := by
    rw [peditSel, parms]
    rfl
  obtain ⟨addresses, ttl⟩ := peditKey_tcePeditSel tcr
  refine ⟨kind, .tcGen parms, ?_, ?_, ⟨htype, typed, ?_⟩, ?_, ?_⟩
  · rw [sel, length_tcePeditSel]
  · rw [peditNkeys, sel]
    exact wordAt_le (tcGen tcActPipe) _ rfl (by simp) (by decide)
  · rw [peditEntries, peditExtended, extended, Option.getD_some, parse_encodeAll keysFit, ← keys,
      typed]
    simp only [List.map_cons, List.map_nil, peditEntry_tcePeditKeyEx]
  · intro i bound
    rw [sel, addresses i bound]
    exact ⟨rfl, rfl⟩
  · rw [sel, ttl]

end Actions

section Matches

/-- The mask of an IPv4 prefix is as many ones as the prefix is long. -/
theorem tceIp4Mask_isMask : ∀ n < 33, 0 < n →
    payloadBits (le 4 (tceIp4Mask (UInt8.ofNat n)).toNat) =
      List.replicate n true ++ List.replicate (32 - n) false := by
  decide +kernel

/-- The mask of an IPv6 prefix is as many ones as the prefix is long. -/
theorem tceBuildIpv6Mask_isMask : ∀ n < 129,
    payloadBits (tceBuildIpv6Mask (UInt8.ofNat n)) =
      List.replicate n true ++ List.replicate (128 - n) false := by
  decide +kernel

/-- The attribute types of the destinations. -/
theorem dstType_cases (af : UInt8) : dstType af = 12 ∨ dstType af = 16 := by
  unfold dstType
  split
  · exact .inl rfl
  · exact .inr rfl

/-- The destinations are not among what `flowerHead` puts, nor the actions. -/
theorem dstType_apart (af : UInt8) :
    dstType af ≠ 3 ∧ dstType af ≠ 8 ∧ dstType af ≠ 22 ∧ dstType af ≠ 25 := by
  have := dstType_cases af
  omega

/-- The attribute types of their masks. -/
theorem maskType_cases (af : UInt8) : maskType af = 13 ∨ maskType af = 17 := by
  unfold maskType
  split
  · exact .inl rfl
  · exact .inr rfl

/-- Attributes that match what a filter of the daemon may match of a family. -/
structure MatchAttrs (af : UInt8) (extra : List Attr) : Prop where
  fits : ∀ a ∈ extra, a.Fits
  short : (encodeAll extra).length ≤ 40
  types : ∀ type, type = 3 ∨ type = 22 ∨ type = 25 ∨ type = 8 → tableOf extra type = none
  dst : DstMatched (tableOf extra (dstType af)) (tableOf extra (maskType af)) (addrWidth af)
  ttl : TtlMatched (tableOf extra 75) (tableOf extra 76)
  otherDst : tableOf extra (dstType (otherAf af)) = none
  otherMask : tableOf extra (maskType (otherAf af)) = none
  rest : ∀ a ∈ extra, a.type ∈ flowerMeanings

/-- Nothing but the family is matched. -/
theorem matchAttrs_any (af : UInt8) : MatchAttrs af [] where
  fits := fun _ inside => absurd inside List.not_mem_nil
  short := Nat.zero_le _
  types := fun _ _ => rfl
  dst := .inl ⟨rfl, rfl⟩
  ttl := .inl ⟨rfl, rfl⟩
  otherDst := rfl
  otherMask := rfl
  rest := fun _ inside => absurd inside List.not_mem_nil

/-- The TTL is matched. -/
theorem matchAttrs_ttl (af : UInt8) :
    MatchAttrs af [mnlAttrPutU8 75 0x01, mnlAttrPutU8 76 0xff] := by
  have table (type : Nat) (other : type ≠ 75 ∧ type ≠ 76) :
      tableOf [mnlAttrPutU8 75 0x01, mnlAttrPutU8 76 0xff] type = none := by
    simp [mnlAttrPutU8, other]
  have dsts (af' : UInt8) : dstType af' ≠ 75 ∧ dstType af' ≠ 76 := by
    have := dstType_cases af'
    omega
  have masks (af' : UInt8) : maskType af' ≠ 75 ∧ maskType af' ≠ 76 := by
    have := maskType_cases af'
    omega
  constructor
  · simp [Attr.Fits, mnlAttrPutU8, mnlAttrPut]
  · simp [mnlAttrPutU8, align]
  · rintro type (rfl | rfl | rfl | rfl) <;> exact table _ (by decide)
  · exact .inl ⟨table _ (dsts _), table _ (masks _)⟩
  · exact .inr ⟨rfl, rfl⟩
  · exact table _ (dsts _)
  · exact table _ (masks _)
  · simp [mnlAttrPutU8, flowerMeanings]

/-- What is put of a prefix matches one destination of its family. -/
theorem matchAttrs_prefix {afAddr : AfAddr} (dst : RoutePrefix afAddr) {tcr : TcRule}
    (same : tcr.afAddr = afAddr) :
    let extra := tceMatchPrefix tcr true
    (afAddr.af = afInet ∨ afAddr.af = afInet6) ∧ MatchAttrs afAddr.af extra ∧
      tableOf extra (dstType afAddr.af) ≠ none ∧ tableOf extra 75 = none := by
  have apart : afInet6 ≠ afInet := by decide
  obtain ⟨known, types, ttl, short, -⟩ := (prefix_decoded dst same {}).2
  have fits : ∀ a ∈ tceMatchPrefix tcr true, a.Fits := fun a inside => (known a inside).1
  generalize put : tceMatchPrefix tcr true = extra at *
  cases dst with
  | @v4 addr maskLen _ positive bound made =>
    obtain ⟨family, len, -⟩ := buildAfAddr_head made
    have nonzero : maskLen ≠ 0 := fun zero => by simp [zero] at positive
    have attrs : extra = [mnlAttrPutU32 12 (sAddr afAddr.addr),
        mnlAttrPutU32 13 (tceIp4Mask maskLen)] := by
      simp [← put, tceMatchPrefix, same, family, len, nonzero]
    have ones := tceIp4Mask_isMask maskLen.toNat
      (by have := UInt8.le_iff_toNat_le.mp bound; simpa [Nat.lt_succ_iff] using this)
      (by simpa using UInt8.lt_iff_toNat_lt.mp positive)
    rw [UInt8.ofNat_toNat] at ones
    subst attrs
    rw [family]
    refine ⟨.inl rfl, ⟨fits, short, types, ?_, .inl ⟨ttl, rfl⟩, rfl, rfl, ?_⟩, ?_, ttl⟩
    · refine .inr ⟨_, _, maskLen.toNat, rfl, rfl, ?_, ?_, _, ones⟩
      · simp [addrWidth, mnlAttrPutU32]
      · simp [addrWidth, mnlAttrPutU32]
    · simp [mnlAttrPutU32, flowerMeanings]
    · simp [dstType, mnlAttrPutU32]
  | @v6 addr maskLen _ bound made =>
    obtain ⟨family, len, -⟩ := buildAfAddr_head made
    have attrs : extra = [mnlAttrPut 16 (be 16 afAddr.addr.toNat),
        mnlAttrPut 17 (tceBuildIpv6Mask maskLen)] := by
      simp [← put, tceMatchPrefix, same, family, len, apart]
    have ones := tceBuildIpv6Mask_isMask maskLen.toNat
      (by have := UInt8.le_iff_toNat_le.mp bound; simpa [Nat.lt_succ_iff] using this)
    rw [UInt8.ofNat_toNat] at ones
    have sixteen : (tceBuildIpv6Mask maskLen).length = 16 := length_tceBuildIpv6MaskLoop 16 _ _
    subst attrs
    rw [family]
    refine ⟨.inr rfl, ⟨fits, short, types, ?_, .inl ⟨ttl, rfl⟩, rfl, rfl, ?_⟩, ?_, ttl⟩
    · refine .inr ⟨_, _, maskLen.toNat, rfl, rfl, ?_, ?_, _, ones⟩
      · simp [addrWidth, apart]
      · simpa [addrWidth, apart] using sixteen
    · simp [flowerMeanings]
    · simp [dstType, apart]

variable {af : UInt8} {flags : UInt32} {extra acts : List Attr}

/-- The options of a filter of the daemon: its head, its match attributes and its actions. -/
def daemonOptions (flags : UInt32) (af : UInt8) (extra acts : List Attr) : List Attr :=
  flowerHead flags (ethTypeOf af) ++ (extra ++ [mnlAttrNest 3 acts])

/-- What `flowerHead` puts is not among the match attributes. -/
theorem attrIn_daemonOptions (fits : ∀ a ∈ daemonOptions flags af extra acts, a.Fits)
    {type : Nat} (other : type ≠ 3 ∧ type ≠ 8 ∧ type ≠ 22 ∧ type ≠ 25) :
    attrIn (encodeAll (daemonOptions flags af extra acts)) type = tableOf extra type := by
  rw [attrIn_encodeAll fits]
  simp [daemonOptions, tableOf_append, flowerHead, mnlAttrPutU32, mnlAttrPutU16, other]

/-- The actions of the options of a filter of the daemon. -/
theorem flowerActions_daemonOptions (fits : ∀ a ∈ daemonOptions flags af extra acts, a.Fits)
    (actsFit : ∀ a ∈ acts, a.Fits) :
    flowerActions (encodeAll (daemonOptions flags af extra acts)) = acts := by
  rw [flowerActions, attrIn_encodeAll fits]
  simp [daemonOptions, tableOf_append, parse_encodeAll actsFit]

/-- The options of a filter of the daemon fit. -/
theorem daemonOptions_fits (flags : UInt32) (put : MatchAttrs af extra)
    (short : (encodeAll acts).length < 1000) :
    ∀ a ∈ daemonOptions flags af extra acts, a.Fits := by
  intro a inside
  rcases List.mem_append.mp inside with head | rest
  · exact (flowerHead_known _ _ a head).1
  · rcases List.mem_append.mp rest with matched | last
    · exact put.fits a matched
    · rw [List.mem_singleton.mp last]
      exact ⟨by rw [payload_mnlAttrNest]; omega, by simp [mnlAttrNest]⟩

/-- The match attributes of the daemon make a match of the daemon. -/
theorem daemonMatch (family : af = afInet ∨ af = afInet6) (put : MatchAttrs af extra)
    (fits : ∀ a ∈ daemonOptions flags af extra acts, a.Fits) :
    DaemonMatch (encodeAll (daemonOptions flags af extra acts)) af := by
  have swapped : htons (htons (ethTypeOf af)) = ethTypeOf af ∧ 0 < ethTypeOf af := by
    rcases family with rfl | rfl <;> decide
  have ether (type : Nat) (which : type = 8 ∨ type = 25) :
      u16In (encodeAll (daemonOptions flags af extra acts)) type = ethTypeOf af := by
    have present : attrIn (encodeAll (daemonOptions flags af extra acts)) type =
        some (le 2 (htons (ethTypeOf af)).toNat) := by
      rw [attrIn_encodeAll fits]
      rcases which with rfl | rfl <;>
        simp [daemonOptions, tableOf_append, flowerHead, put.types, mnlAttrPutU32, mnlAttrPutU16]
    simp only [u16In, present, wordAt_u16, UInt16.ofNat_toNat, swapped.1]
  have entry {type : Nat} (other : type ≠ 3 ∧ type ≠ 8 ∧ type ≠ 22 ∧ type ≠ 25) :=
    attrIn_daemonOptions fits other
  have masks (af' : UInt8) : maskType af' ≠ 3 ∧ maskType af' ≠ 8 ∧ maskType af' ≠ 22 ∧
      maskType af' ≠ 25 := by
    have := maskType_cases af'
    omega
  constructor
  · exact family
  · exact ⟨swapped.2, ether 25 (.inr rfl), ether 8 (.inl rfl)⟩
  · rw [entry (dstType_apart af), entry (masks af)]
    exact put.dst
  · rw [entry (by decide), entry (by decide)]
    exact put.ttl
  · exact (entry (dstType_apart _)).trans put.otherDst
  · exact (entry (masks _)).trans put.otherMask
  · rw [parse_encodeAll fits]
    intro a inside
    simp only [daemonOptions, flowerHead, List.mem_append, List.mem_cons, List.not_mem_nil,
      or_false] at inside
    rcases inside with (rfl | rfl | rfl) | matched | rfl
    · simp [mnlAttrPutU32, flowerMeanings]
    · simp [mnlAttrPutU16, flowerMeanings]
    · simp [mnlAttrPutU16, flowerMeanings]
    · exact put.rest a matched
    · simp [flowerMeanings]

end Matches

section Messages

variable {ifidx chainNo : UInt32} {prio : UInt16} {tcr : TcRule} {extra acts : List Attr}

/-- The lower half of the packed word is the protocol. -/
theorem protocol_tcHMake (prio protocol : UInt16) :
    tcHMake (prio.toUInt32 <<< 16) protocol.toUInt32 &&& 0xffff = protocol.toUInt32 := by
  apply UInt32.toBitVec_inj.mp
  simp only [tcHMake]
  ext i bound
  interval_cases i <;> simp

/-- A message of the daemon with a match and actions of the daemon. -/
theorem understood_add (family : tcr.afAddr.af = afInet ∨ tcr.afAddr.af = afInet6)
    (encoded : tcEncodeRuleBody ifidx tcr true = .ok (extra ++ [mnlAttrNest 3 acts]))
    (put : MatchAttrs tcr.afAddr.af extra) (short : (encodeAll acts).length < 1000)
    (acted : DaemonActions ifidx
      (encodeAll (daemonOptions tcr.flowerFlags tcr.afAddr.af extra acts)) tcr.afAddr.af) :
    ∃ nlh, tcEncodeRule ifidx chainNo prio (some tcr) true = .ok nlh ∧ Understood nlh := by
  have matched := daemonMatch family put
    (daemonOptions_fits tcr.flowerFlags put short)
  have size : (encodeAll (daemonOptions tcr.flowerFlags tcr.afAddr.af extra acts)).length < 65000 := by
    have head := length_flowerHead tcr.flowerFlags (ethTypeOf tcr.afAddr.af)
    have last : (encodeAll [mnlAttrNest 3 acts]).length < 2000 := by
      simp only [length_encodeAll_cons, payload_mnlAttrNest, align, length_encodeAll_nil]
      omega
    have few := put.short
    rw [daemonOptions, length_encodeAll_append, length_encodeAll_append]
    omega
  generalize options : daemonOptions tcr.flowerFlags tcr.afAddr.af extra acts = attrs at *
  refine ⟨{
    type := rtmNewtfilter
    flags := nlmFRequestAck ||| nlmFExclCreate
    tcm := tceSetTcm ifidx (tcHMake (prio.toUInt32 <<< 16) (htons ethP8021q).toUInt32) true
    attrs := encodeAll [mnlAttrPutU32 11 chainNo, mnlAttrPutStrz 1 "flower", mnlAttrNest 2 attrs] },
    ?_, encodeAll attrs, ?_, protocol_tcHMake _ _, tcr.afAddr.af, matched, acted⟩
  · simp only [tcEncodeRule, tcEncodeAddRule, tceNewFlowerRule_loopback family, encoded, bind,
      Except.bind, pure, Except.pure, ← options, daemonOptions]
  · have entry := attrIn_encodeAll fun a inside => (addAttrs_known chainNo size a inside).1
    obtain ⟨-, kind, opts⟩ := addAttrs_table chainNo attrs
    have string : mnlAttrGetStr (ascii "flower" ++ [0]) = ascii "flower" := by decide
    simp only [flowerOptions, entry, kind, opts, string, if_true]
    exact rfl

/-- A trap or a goto of the daemon. -/
theorem understood_gact (extra : List Attr) {action : UInt32}
    (family : tcr.afAddr.af = afInet ∨ tcr.afAddr.af = afInet6)
    (encoded : tcEncodeRuleBody ifidx tcr true = .ok (extra ++ [tceSimpleGact action]))
    (put : MatchAttrs tcr.afAddr.af extra)
    (acted : ∀ options act,
      (∀ {type : Nat}, type ≠ 3 ∧ type ≠ 8 ∧ type ≠ 22 ∧ type ≠ 25 →
        attrIn options type = tableOf extra type) →
      flowerActions options = [act] → AlwaysGact act action →
      DaemonActions ifidx options tcr.afAddr.af) :
    ∃ nlh, tcEncodeRule ifidx chainNo prio (some tcr) true = .ok nlh ∧ Understood nlh := by
  obtain ⟨actsFit, size, -⟩ := gactActions action {}
  have short : (encodeAll [tceAction 1 "gact" [mnlAttrPut 2 (tcGen action)]]).length < 1000 := by
    rw [size]
    decide
  have fits := daemonOptions_fits tcr.flowerFlags put short
  refine understood_add family encoded put short (acted _ _ ?_ ?_ (gact_always action))
  · exact fun other => attrIn_daemonOptions fits other
  · exact flowerActions_daemonOptions fits actsFit

/-- A trap or a goto of a prefix is understood. -/
theorem understood_prefix {action : UInt32} (dst : RoutePrefix tcr.afAddr)
    (encoded : tcEncodeRuleBody ifidx tcr true = .ok (tceAddIpGactRule tcr true action))
    (acted : ∀ options act, attrIn options (dstType tcr.afAddr.af) ≠ none →
      attrIn options 75 = none → flowerActions options = [act] → AlwaysGact act action →
      DaemonActions ifidx options tcr.afAddr.af) :
    ∃ nlh, tcEncodeRule ifidx chainNo prio (some tcr) true = .ok nlh ∧ Understood nlh := by
  obtain ⟨family, put, present, ttl⟩ := matchAttrs_prefix dst rfl
  refine understood_gact _ family encoded put fun options act table acts always => ?_
  refine acted options act ?_ ((table (by decide)).trans ttl) acts always
  rw [table (dstType_apart _)]
  exact present

/-- Forwarding by an interface is understood. -/
theorem understood_forward (family : tcr.afAddr.af = afInet ∨ tcr.afAddr.af = afInet6)
    (type : tcr.type = .forward) (tagged : tcr.vlanId ≠ 0) :
    ∃ nlh, tcEncodeRule ifidx chainNo prio (some tcr) true = .ok nlh ∧ Understood nlh := by
  obtain ⟨htype, typed⟩ := tcePeditTtlHtype_some family
  obtain ⟨actsFit, short, -⟩ := @forwardActions ifidx tcr htype tagged typed
  have put := matchAttrs_any tcr.afAddr.af
  have fits := daemonOptions_fits tcr.flowerFlags put short
  have body : tcEncodeRuleBody ifidx tcr true = .ok (tceAddIpForwardRule ifidx tcr) := by
    rw [tcEncodeRuleBody, type]
  refine understood_add family body put short (.forward ?_ ?_ ?_)
  · exact attrIn_daemonOptions fits (dstType_apart _)
  · exact attrIn_daemonOptions fits (by decide)
  · rw [flowerActions_daemonOptions fits actsFit]
    have tag := tceModifyVlanAction_modifies tagged 1
    have headers := tcePeditAction_rewrites family 2
    rcases family with v4 | v6
    · rw [v4] at headers ⊢
      exact .v4 tag headers (tceCsumAction_updates 3) (tceRedirectAction_redirects ifidx 4)
    · have apart : ¬ afInet6 = afInet := by decide
      rw [v6] at headers ⊢
      rw [if_neg apart]
      exact .v6 tag headers (tceRedirectAction_redirects ifidx 3)

/-- What the daemon writes for a rule is one of the filters that count as the daemon's. -/
theorem DaemonRule.understood (daemon : DaemonRule tcr) (ifidx chainNo : UInt32) (prio : UInt16) :
    ∃ nlh, tcEncodeRule ifidx chainNo prio (some tcr) true = .ok nlh ∧ Understood nlh := by
  cases daemon with
  | forward family tagged made =>
    rw [tcRuleSetTypeAndTraits_fresh rfl rfl made]
    exact understood_forward family rfl tagged
  | routeGoto chain dst made =>
    rw [tcRuleSetTypeAndTraits_fresh rfl rfl made]
    rcases dst with dst | dflt
    · exact understood_prefix dst rfl fun options act _ ttl acts always =>
        .routeGoto ttl act _ acts chain always
    · rw [dflt.eq]
      refine understood_gact [] (.inl rfl) rfl (matchAttrs_any afInet)
        fun options act table acts always => ?_
      exact .routeGoto (table (by decide)) act _ acts chain always
  | routeTrap dst made =>
    rw [tcRuleSetTypeAndTraits_fresh rfl rfl made]
    exact understood_prefix dst rfl fun options act present ttl acts always =>
      .routeTrap present ttl act acts always
  | @ttlCheck af _ _ family made =>
    rw [tcRuleSetTypeAndTraits_fresh rfl rfl made]
    refine understood_gact [mnlAttrPutU8 75 0x01, mnlAttrPutU8 76 0xff] family rfl
      (matchAttrs_ttl af) fun options act table acts always => ?_
    refine .ttlCheck ((table (dstType_apart _)).trans ?_) ?_ act acts always
    · rcases dstType_cases af with v4 | v6
      · simp [v4, mnlAttrPutU8]
      · simp [v6, mnlAttrPutU8]
    · rw [table (by decide)]
      simp [mnlAttrPutU8]

end Messages

end FlowerRoute
