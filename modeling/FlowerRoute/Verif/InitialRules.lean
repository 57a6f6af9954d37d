import FlowerRoute.Model.SchedBasic
import FlowerRoute.Verif.Onload
import FlowerRoute.Verif.LongestPrefix

/-!
# The rules of the start

After `sched_basic_init` the positions of the daemon are known exactly: rule by rule those of the
requests, with the prefixes of each family in the order of the list from priority 10 on. So the
routes of a family, which look for a priority from 100 on, come behind all of them.
-/

namespace FlowerRoute

open Outcome

/-- A request for a static rule. -/
structure StaticRequest where
  chainNo : UInt32
  prio : UInt16
  tcr : TcRule

/-- The rule that a request makes. -/
def StaticRequest.rule (req : StaticRequest) : ObjRule where
  obj := { kind := .rule }
  chainNo := req.chainNo
  prio := req.prio
  type := .static
  wantTcr := some req.tcr
  havePos := true

/-- The rules are those of the requests, in their order, and pinned. -/
structure World.Lays (w : World) (requests : List StaticRequest) : Prop where
  pinChanges : w.pinChanges = 0
  placed : Placed w
  next : w.rules.next = requests.length
  rule : ∀ (r : Nat) req, requests[r]? = some req → w.rules.cell r = req.rule
  live : ∀ r : Nat, w.Live r → r < requests.length
  tree : ∀ r : Nat, r ∈ w.posTree.toList ↔ r < requests.length

namespace World.Lays

variable {w : World} {requests : List StaticRequest}

/-- A priority is taken exactly by a request. -/
theorem taken (lays : w.Lays requests) (chainNo : UInt32) (prio : UInt16) :
    w.Taken chainNo prio ↔ ∃ req ∈ requests, req.chainNo = chainNo ∧ req.prio = prio := by
  constructor
  · rintro ⟨r, inside, chain, position⟩
    have bound := (lays.tree r).mp inside
    have here := lays.rule r _ (List.getElem?_eq_getElem bound)
    refine ⟨requests[r], List.getElem_mem bound, ?_, ?_⟩
    · rw [← chain, here]
      rfl
    · rw [← position, here]
      rfl
  · rintro ⟨req, member, chain, position⟩
    obtain ⟨r, here⟩ := List.getElem?_of_mem member
    have bound : r < requests.length := (List.getElem?_eq_some_iff.mp here).1
    refine ⟨r, (lays.tree r).mpr bound, ?_, ?_⟩
    · rw [lays.rule r req here]
      exact chain
    · rw [lays.rule r req here]
      exact position

/-- A position that no request names is free. -/
theorem free (lays : w.Lays requests) (chainNo : UInt32) (prio : UInt16)
    (positions : List (UInt32 × UInt16))
    (all : requests.map (fun req => (req.chainNo, req.prio)) = positions)
    (fresh : (chainNo, prio) ∉ positions) : ¬ w.Taken chainNo prio := by
  rw [lays.taken]
  rintro ⟨req, member, chain, position⟩
  apply fresh
  rw [← all]
  exact List.mem_map.mpr ⟨req, member, by rw [chain, position]⟩

/-- The rules before the first request. -/
theorem blank (blank : w.Blank) : w.Lays [] := by
  have dead : ∀ r, ¬ w.Live r := fun r live => by
    rw [World.Live, blank.rules] at live
    cases live
  constructor
  case pinChanges => exact blank.pinChanges
  case placed =>
    constructor
    · intro r inside
      rw [blank.posTree] at inside
      cases inside
    · rw [blank.posTree]
      exact .nil
  case next =>
    rw [blank.rules]
    rfl
  case rule =>
    intro r req here
    cases here
  case live => exact fun r live => absurd live (dead r)
  case tree =>
    intro r
    rw [blank.posTree]
    simp [SearchTree.toList]

/-- A request for a free position makes its rule and nothing else. -/
theorem staticWant (lays : w.Lays requests) (depth : Nat) (req : StaticRequest)
    (small : Small req.chainNo)
    (free : ¬ w.Taken req.chainNo req.prio) :
    ∃ w', objRuleStaticWant (calls (depth + 1)) req.chainNo req.prio req.tcr w = .ok w' ∧
      w'.Lays (requests ++ [req]) ∧ w'.config = w.config := by
  have search : objRulePosLookup req.chainNo req.prio w = .ok none := by
    apply lays.placed.absent
    rintro ⟨r, live, position⟩
    exact free ⟨r, (lays.tree r).mpr (lays.live r live), position⟩
  have bound : ∀ r, w.Live r → r < w.rules.next := fun r live => lays.next ▸ lays.live r live
  let fresh : ObjRule := { req.rule with havePos := false }
  let made := (objRuleAlloc {
    chainNo := req.chainNo, prio := req.prio, type := .static, wantTcr := some req.tcr } w).2
  have rules : made.rules = w.rules.alloc fresh := rfl
  obtain ⟨linked, link⟩ := lays.placed.link bound search rules w.rules.next
  let w' : World := ({ made with
    posTree := w.balancing.insertColor w.rules.next linked }).setRule w.rules.next
      fun rule => { rule with havePos := true }
  have here : made.rules.cell w.rules.next = fresh := by rw [rules, Heap.cell_alloc_same]
  have inserted : objRulePosInsert w.rules.next made = .ok w' := by
    rw [objRulePosInsert, rule_live (by rw [here]; rfl), ok_bind, here, require, if_pos rfl]
    rw [ok_bind]
    rw [show made.posTree.link (posCompare fresh.chainNo fresh.prio made) w.rules.next = _ from
      link]
    rfl
  have rules' : w'.rules = w.rules.alloc req.rule := by
    have placed : w'.rules = made.rules.modify w.rules.next fun rule =>
        { rule with havePos := true } := rfl
    rw [placed, rules, Heap.modify_alloc]
    rfl
  refine ⟨w', ?_, ?_, rfl⟩
  · rw [objRuleStaticWant, search, ok_bind, require, if_pos rfl, ok_bind]
    change (objRulePosInsert w.rules.next made >>=
      objRuleUpdateState (calls depth) w.rules.next) = .ok w'
    rw [inserted, ok_bind]
    rw [objRuleUpdateState, if_pos (show w'.pinChanges = 0 from lays.pinChanges)]
    rfl
  have tree : w'.posTree.toList = linked.toList := w.balancing.insertColor_toList ..
  have cell : ∀ r : Nat, w'.rules.cell r =
      if r = requests.length then req.rule else w.rules.cell r := by
    intro r
    rw [rules', Heap.cell_alloc, lays.next]
  constructor
  case pinChanges => exact lays.pinChanges
  case placed => exact lays.placed.alloc bound small rfl rules' rules link tree
  case next =>
    rw [rules', List.length_append, ← lays.next]
    rfl
  case rule =>
    intro r other here
    rw [cell]
    rcases Nat.lt_trichotomy r requests.length with before | last | behind
    · rw [if_neg (Nat.ne_of_lt before)]
      rw [List.getElem?_append_left before] at here
      exact lays.rule r other here
    · subst last
      rw [List.getElem?_concat_length] at here
      cases here
      rw [if_pos rfl]
    · rw [List.getElem?_eq_none (by rw [List.length_append, List.length_singleton]; omega)] at here
      cases here
  case live =>
    intro r live
    rw [List.length_append, List.length_singleton]
    by_cases last : r = requests.length
    · omega
    · rw [World.Live, cell, if_neg last] at live
      have before := lays.live r live
      omega
  case tree =>
    intro r
    rw [tree, SearchTree.mem_link link, lays.tree, lays.next, List.length_append,
      List.length_singleton, or_comm]
    exact Nat.lt_succ_iff_lt_or_eq.symm

end World.Lays

/-- The chain of a family. -/
def familyChain (af : UInt8) : UInt32 := if af = afInet then 1 else 2

theorem small_familyChain (af : UInt8) : Small (familyChain af) := by
  rw [familyChain]
  split <;> decide

/-- How many of some prefixes are of a family. -/
def ofFamily (af : UInt8) (prefixes : List AfAddr) : Nat := prefixes.countP (·.af = af)

/-- A rule of the start. -/
def initialRule (flowerFlags : UInt32) (type : TcRuleType) (afAddr : AfAddr)
    (gotoTarget : UInt32) : TcRule where
  type := type
  flowerFlags := flowerFlags
  gotoTarget := gotoTarget
  traits := typeTraits type
  afAddr := afAddr

/-- The request for a prefix, behind those of its family before it. -/
def onloadRequest (flowerFlags : UInt32) (before : List AfAddr) (pfx : AfAddr) : StaticRequest where
  chainNo := familyChain pfx.af
  prio := UInt16.ofNat (10 + ofFamily pfx.af before)
  tcr := initialRule flowerFlags .routeTrap pfx 0

/-- The requests for some prefixes after others. -/
def onloadRequests (flowerFlags : UInt32) (before : List AfAddr) :
    List AfAddr → List StaticRequest
  | [] => []
  | pfx :: rest => onloadRequest flowerFlags before pfx ::
      onloadRequests flowerFlags (before ++ [pfx]) rest

/-- The requests that sort packets by family and trap expiring ones. -/
def familyRequests (flowerFlags : UInt32) : List StaticRequest := [
  ⟨0, 1, initialRule flowerFlags .routeGoto ⟨afInet, 0, 0, 0⟩ 1⟩,
  ⟨0, 2, initialRule flowerFlags .routeGoto ⟨afInet6, 3, unicast6, 0⟩ 2⟩,
  ⟨1, 1, initialRule flowerFlags .ttlCheck ⟨afInet, 0, 0, 0⟩ 0⟩,
  ⟨2, 1, initialRule flowerFlags .ttlCheck ⟨afInet6, 0, 0, 0⟩ 0⟩]

/-- All requests at the start. -/
def initialRequests (flowerFlags : UInt32) (prefixes : List AfAddr) : List StaticRequest :=
  familyRequests flowerFlags ++ onloadRequests flowerFlags [] prefixes

section Requests

variable {flowerFlags : UInt32} {before prefixes : List AfAddr} {pfx : AfAddr} {af : UInt8}

/-- Only two families have a chain. -/
theorem getAfChain_iff {chainNo : UInt32} : getAfChain af = .ok chainNo ↔
    (af = afInet ∨ af = afInet6) ∧ chainNo = familyChain af := by
  rw [getAfChain, familyChain]
  by_cases four : af = afInet
  · simp [four, eq_comm]
  · by_cases six : af = afInet6
    · subst six
      simp [afInet, afInet6, eq_comm]
    · simp [four, six]

/-- The chains of the two families. -/
theorem familyChain_inj {af' : UInt8} (family : af = afInet ∨ af = afInet6)
    (family' : af' = afInet ∨ af' = afInet6) :
    familyChain af = familyChain af' ↔ af = af' := by
  rcases family with rfl | rfl <;> rcases family' with rfl | rfl <;> decide

theorem onloadRequests_append (rest : List AfAddr) :
    onloadRequests flowerFlags before (rest ++ [pfx]) =
      onloadRequests flowerFlags before rest ++
        [onloadRequest flowerFlags (before ++ rest) pfx] := by
  induction rest generalizing before with
  | nil => simp [onloadRequests]
  | cons first rest ih =>
    simp only [List.cons_append, onloadRequests, ih, List.append_assoc, List.nil_append]

theorem ofFamily_append (pfx : AfAddr) :
    ofFamily af (before ++ [pfx]) = ofFamily af before + if pfx.af = af then 1 else 0 := by
  simp only [ofFamily, List.countP_append, List.countP_singleton, decide_eq_true_eq]

/-- The priorities of the requests for prefixes of a family: from 10 on, without a gap. -/
theorem onload_prios (family : af = afInet ∨ af = afInet6)
    (families : ∀ pfx ∈ prefixes, pfx.af = afInet ∨ pfx.af = afInet6)
    (room : ofFamily af prefixes ≤ 65526) (n : Nat) :
    (∃ req ∈ onloadRequests flowerFlags [] prefixes, req.chainNo = familyChain af ∧
      req.prio.toNat = n) ↔ 10 ≤ n ∧ n < 10 + ofFamily af prefixes := by
  induction prefixes using List.reverseRecOn with
  | nil =>
    simp [onloadRequests, ofFamily]
  | append_singleton prefixes pfx ih =>
    have known := families pfx (by simp)
    have families' : ∀ other ∈ prefixes, other.af = afInet ∨ other.af = afInet6 :=
      fun other inside => families other (List.mem_append_left _ inside)
    rw [ofFamily_append] at room ⊢
    have ih := ih families' (by omega)
    simp only [onloadRequests_append, List.nil_append, List.mem_append, List.mem_singleton,
      or_and_right, exists_or, exists_eq_left, ih, onloadRequest, familyChain_inj known family]
    by_cases same : pfx.af = af
    · subst same
      simp only [if_true, true_and] at room ⊢
      rw [UInt16.toNat_ofNat_of_lt' (by show _ < 65536; omega)]
      omega
    · simp only [same, if_false, false_and, or_false, Nat.add_zero]

/-- The priorities that are taken in a family's chain: the trap's and those of its prefixes. -/
theorem initial_prios {w : World} (lays : w.Lays (initialRequests flowerFlags prefixes))
    (family : af = afInet ∨ af = afInet6)
    (families : ∀ pfx ∈ prefixes, pfx.af = afInet ∨ pfx.af = afInet6)
    (room : ofFamily af prefixes ≤ 65526) (n : Nat) :
    n ∈ w.prios (familyChain af) w.posTree.toList ↔
      n = 1 ∨ 10 ≤ n ∧ n < 10 + ofFamily af prefixes := by
  have taken : n ∈ w.prios (familyChain af) w.posTree.toList ↔
      ∃ req ∈ initialRequests flowerFlags prefixes, req.chainNo = familyChain af ∧
        req.prio.toNat = n := by
    constructor
    · intro inside
      have small : n < 65536 := prios_lt n inside
      have same : (UInt16.ofNat n).toNat = n := UInt16.toNat_ofNat_of_lt' small
      rw [← same, mem_prios, lays.taken] at inside
      obtain ⟨req, member, chain, prio⟩ := inside
      exact ⟨req, member, chain, by rw [prio, same]⟩
    · rintro ⟨req, member, chain, rfl⟩
      rw [mem_prios, lays.taken]
      exact ⟨req, member, chain, rfl⟩
  have first : (∃ req ∈ familyRequests flowerFlags, req.chainNo = familyChain af ∧
      req.prio.toNat = n) ↔ n = 1 := by
    rcases family with rfl | rfl <;> simp [familyRequests, familyChain, afInet, afInet6, eq_comm]
  rw [taken]
  simp only [initialRequests, List.mem_append, or_and_right, exists_or, first,
    onload_prios family families room]

/-- The next priority of a family's chain, for a prefix of the list and for a route. -/
theorem initial_next {w : World} (lays : w.Lays (initialRequests flowerFlags prefixes))
    (family : af = afInet ∨ af = afInet6)
    (families : ∀ pfx ∈ prefixes, pfx.af = afInet ∨ pfx.af = afInet6)
    (room : ofFamily af prefixes < 65526) {minPrio : UInt16}
    (base : minPrio = 10 ∨ minPrio = 100) :
    objRuleFindAvailablePrio (familyChain af) minPrio w =
      .ok (UInt16.ofNat (max minPrio.toNat (10 + ofFamily af prefixes))) := by
  have prios := initial_prios lays family families (Nat.le_of_lt room)
  generalize ofFamily af prefixes = count at *
  have base' : minPrio.toNat = 10 ∨ minPrio.toNat = 100 := base.imp (by rintro rfl; rfl)
    (by rintro rfl; rfl)
  have value : (UInt16.ofNat (max minPrio.toNat (10 + count))).toNat =
      max minPrio.toNat (10 + count) := UInt16.toNat_ofNat_of_lt' (by change _ < 65536; omega)
  have open' : max minPrio.toNat (10 + count) ∉ w.prios (familyChain af) w.posTree.toList := by
    rw [prios]
    omega
  have exists' : ∃ q : UInt16, minPrio ≤ q ∧ ¬ w.Taken (familyChain af) q := by
    refine ⟨UInt16.ofNat (max minPrio.toNat (10 + count)), ?_, ?_⟩
    · rw [UInt16.le_iff_toNat_le, value]
      exact Nat.le_max_left ..
    · rw [← mem_prios, value]
      exact open'
  obtain ⟨prio, ran, -⟩ := objRuleFindAvailablePrio_free lays.placed exists'
  obtain ⟨first, begins, least⟩ := objRuleFindAvailablePrio_first lays.placed ran
  -- the search begins at its minimum, as the prefixes begin there or end before it
  have start : first = minPrio.toNat := by
    rcases begins with ⟨-, same⟩ | ⟨later, member, lowest⟩
    · exact same
    · rcases base' with ten | hundred
      · have inside := (prios first).mp member.1
        have behind := member.2
        have low := lowest ⟨(prios minPrio.toNat).mpr (by omega), Nat.le_refl _⟩
        omega
      · exfalso
        apply later
        by_cases many : 90 ≤ count
        · exact .inr (.inl ((prios _).mpr (by omega)))
        · refine .inr (.inr (.inl fun n inside => ?_))
          have range := (prios n).mp inside
          omega
  rw [start] at least
  rw [ran]
  congr 1
  rcases least with ⟨⟨above, free⟩, lower⟩ | ⟨-, full⟩
  · have low := lower ⟨Nat.le_max_left .., open'⟩
    rw [prios] at free
    apply UInt16.toNat_inj.mp
    rw [value]
    omega
  · exact absurd (full _ (Nat.le_max_left ..) (by omega)) open'

theorem requestAfGotoRule_eq (c : Calls) (chainNo : UInt32) (prio : UInt16) (af : UInt8)
    (gotoTarget : UInt32) (w : World) : requestAfGotoRule c chainNo prio af gotoTarget w =
      objRuleStaticWant c chainNo prio (initialRule w.config.flowerFlags .routeGoto
        (if af = afInet6 then ⟨afInet6, 3, unicast6, 0⟩ else ⟨af, 0, 0, 0⟩) gotoTarget) w :=
  rfl

theorem requestTtlCheck_eq (c : Calls) (chainNo : UInt32) (prio : UInt16) (af : UInt8)
    (w : World) : requestTtlCheck c chainNo prio af w =
      objRuleStaticWant c chainNo prio
        (initialRule w.config.flowerFlags .ttlCheck ⟨af, 0, 0, 0⟩ 0) w :=
  rfl

theorem requestOnloadRule_eq (c : Calls) (chainNo : UInt32) (prio : UInt16) (afAddr : AfAddr)
    (w : World) : requestOnloadRule c chainNo prio afAddr w =
      objRuleStaticWant c chainNo prio (initialRule w.config.flowerFlags .routeTrap afAddr 0) w :=
  rfl

/-- A prefix is placed behind those of its family before it. -/
theorem requestOnloadRule_lays (depth : Nat) {w : World}
    (lays : w.Lays (initialRequests w.config.flowerFlags before))
    (family : pfx.af = afInet ∨ pfx.af = afInet6)
    (families : ∀ other ∈ before, other.af = afInet ∨ other.af = afInet6)
    (place : ofFamily pfx.af before < 65526) :
    ∃ prio w', objRuleFindAvailablePrio (familyChain pfx.af) 10 w = .ok prio ∧
      requestOnloadRule (calls (depth + 1)) (familyChain pfx.af) prio pfx w = .ok w' ∧
      w'.Lays (initialRequests w'.config.flowerFlags (before ++ [pfx])) ∧
      w'.config = w.config := by
  have value : (UInt16.ofNat (10 + ofFamily pfx.af before)).toNat =
      10 + ofFamily pfx.af before := UInt16.toNat_ofNat_of_lt' (by change _ < 65536; omega)
  have found := initial_next lays family families place (.inl rfl : (10 : UInt16) = 10 ∨ _)
  rw [show max (10 : UInt16).toNat (10 + ofFamily pfx.af before) = _ from
    Nat.max_eq_right (Nat.le_add_right ..)] at found
  have free : ¬ w.Taken (familyChain pfx.af) (UInt16.ofNat (10 + ofFamily pfx.af before)) := by
    rw [← mem_prios, initial_prios lays family families (Nat.le_of_lt place), value]
    omega
  obtain ⟨w', wanted, lays', same⟩ := lays.staticWant depth
    (onloadRequest w.config.flowerFlags before pfx) (small_familyChain _) free
  have whole : initialRequests w.config.flowerFlags before ++
      [onloadRequest w.config.flowerFlags before pfx] =
        initialRequests w.config.flowerFlags (before ++ [pfx]) := by
    simp only [initialRequests, onloadRequests_append, List.append_assoc, List.nil_append]
  rw [whole, ← same] at lays'
  exact ⟨_, w', found, wanted, lays', same⟩

/-- No prefix is placed in a full chain. -/
theorem requestOnloadRule_room {c : Calls} {w w' : World} {prio : UInt16}
    (lays : w.Lays (initialRequests w.config.flowerFlags before))
    (family : pfx.af = afInet ∨ pfx.af = afInet6)
    (families : ∀ other ∈ before, other.af = afInet ∨ other.af = afInet6)
    (room : ofFamily pfx.af before ≤ 65526)
    (found : objRuleFindAvailablePrio (familyChain pfx.af) 10 w = .ok prio)
    (wanted : requestOnloadRule c (familyChain pfx.af) prio pfx w = .ok w') :
    ofFamily pfx.af before < 65526 := by
  by_contra full
  have above : 10 ≤ prio.toNat := by
    obtain ⟨ret, -, found⟩ := bind_returned found
    obtain ⟨_, required, found⟩ := bind_returned found
    cases found
    exact UInt16.le_iff_toNat_le.mp (of_require required)
  have taken : w.Taken (familyChain pfx.af) prio := by
    have below : prio.toNat < 65536 := prio.toNat_lt
    rw [← mem_prios, initial_prios lays family families room]
    omega
  obtain ⟨r, inside, chain, position⟩ := taken
  have here := lays.placed.find inside
  rw [chain, position] at here
  rw [requestOnloadRule_eq, objRuleStaticWant, here, ok_bind] at wanted
  cases wanted

/-- The loop over the entries of the list places their prefixes. -/
theorem placePrefixListLoop_lays {config : PrefixConfig} (depth : Nat)
    {entries : List PrefixEntryId} {start : Option PrefixEntryId}
    (linked : LinkedList.Linked config.entryNext start entries) {fuel : Nat}
    (enough : entries.length ≤ fuel) {w : World}
    (lays : w.Lays (initialRequests w.config.flowerFlags before))
    (families : ∀ pfx ∈ before ++ entries.map fun entry =>
      AfAddr.ofBytes (config.entries.cell entry).addr, pfx.af = afInet ∨ pfx.af = afInet6)
    (room : ∀ af, ofFamily af (before ++ entries.map fun entry =>
      AfAddr.ofBytes (config.entries.cell entry).addr) ≤ 65526) :
    ∃ w', placePrefixListLoop (calls (depth + 1)) config 10 fuel start w = .ok w' ∧
      w'.Lays (initialRequests w.config.flowerFlags (before ++ entries.map fun entry =>
        AfAddr.ofBytes (config.entries.cell entry).addr)) := by
  induction entries generalizing before start fuel w with
  | nil =>
    have ended : start = none := linked
    subst ended
    refine ⟨w, ?_, ?_⟩
    · cases fuel <;> rfl
    · rw [List.map_nil, List.append_nil]
      exact lays
  | cons entry entries ih =>
    obtain ⟨rfl, tail⟩ := linked
    cases fuel with
    | zero => exact absurd enough (Nat.not_succ_le_zero _)
    | succ fuel =>
      rw [List.map_cons] at families room ⊢
      generalize here : AfAddr.ofBytes (config.entries.cell entry).addr = pfx at families room ⊢
      have family := families pfx (by simp)
      have families' : ∀ other ∈ before, other.af = afInet ∨ other.af = afInet6 :=
        fun other inside => families other (List.mem_append_left _ inside)
      have place : ofFamily pfx.af before < 65526 := by
        have total := room pfx.af
        simp only [ofFamily, List.countP_append, List.countP_cons, decide_true, if_true] at total ⊢
        omega
      obtain ⟨prio, w₁, found, wanted, lays₁, same⟩ :=
        requestOnloadRule_lays depth lays family families' place
      obtain ⟨w', ran, lays'⟩ := ih tail (Nat.le_of_succ_le_succ enough) lays₁
        (by simpa using families) (by simpa using room)
      rw [same, List.append_assoc, List.singleton_append] at lays'
      refine ⟨w', ?_, lays'⟩
      rw [placePrefixListLoop, here, getAfChain_iff.mpr ⟨family, rfl⟩, ok_bind, found, ok_bind,
        wanted, ok_bind]
      exact ran

/-- The loop fails where a chain has no room for them. -/
theorem placePrefixListLoop_room {config : PrefixConfig} {depth : Nat}
    {entries : List PrefixEntryId} {start : Option PrefixEntryId}
    (linked : LinkedList.Linked config.entryNext start entries) {fuel : Nat} {w w' : World}
    (lays : w.Lays (initialRequests w.config.flowerFlags before))
    (families : ∀ pfx ∈ before ++ entries.map fun entry =>
      AfAddr.ofBytes (config.entries.cell entry).addr, pfx.af = afInet ∨ pfx.af = afInet6)
    (room : ∀ af, ofFamily af before ≤ 65526)
    (ran : placePrefixListLoop (calls (depth + 1)) config 10 fuel start w = .ok w') (af : UInt8) :
    ofFamily af (before ++ entries.map fun entry =>
      AfAddr.ofBytes (config.entries.cell entry).addr) ≤ 65526 := by
  induction entries generalizing before start fuel w with
  | nil =>
    rw [List.map_nil, List.append_nil]
    exact room af
  | cons entry entries ih =>
    obtain ⟨rfl, tail⟩ := linked
    cases fuel with
    | zero => cases ran
    | succ fuel =>
      rw [List.map_cons] at families ⊢
      rw [placePrefixListLoop] at ran
      generalize AfAddr.ofBytes (config.entries.cell entry).addr = pfx at families ran ⊢
      have family := families pfx (by simp)
      have families' : ∀ other ∈ before, other.af = afInet ∨ other.af = afInet6 :=
        fun other inside => families other (List.mem_append_left _ inside)
      rw [getAfChain_iff.mpr ⟨family, rfl⟩, ok_bind] at ran
      obtain ⟨prio, found, ran⟩ := bind_returned ran
      obtain ⟨w₁, wanted, ran⟩ := bind_returned ran
      have place := requestOnloadRule_room lays family families' (room pfx.af) found wanted
      obtain ⟨prio', w₁', found', wanted', lays₁, -⟩ :=
        requestOnloadRule_lays depth lays family families' place
      rw [found'] at found
      cases found
      rw [wanted'] at wanted
      cases wanted
      have room' : ∀ af, ofFamily af (before ++ [pfx]) ≤ 65526 := by
        intro af
        rw [ofFamily_append]
        by_cases same : pfx.af = af
        · subst same
          rw [if_pos rfl]
          exact place
        · rw [if_neg same]
          exact room af
      have rest := ih tail lays₁ (by simpa using families) room' ran
      rwa [List.append_assoc, List.singleton_append] at rest

end Requests

/-- The prefixes of the list "onload". -/
def PrefixConfig.onload (config : PrefixConfig) : List AfAddr :=
  match config.contents.find? fun list => list.1 = "onload".toList with
  | none => []
  | some list => list.2.map AfAddr.ofBytes

section Lists

variable {config : PrefixConfig} {p : InetPton}

/-- What is in the lists after an address is appended to one. -/
theorem mem_appendPrefix {listName : List Char} {addr other : Bytes}
    {lists : List (List Char × List Bytes)} {list : List Char × List Bytes}
    (member : list ∈ appendPrefix listName addr lists) (inside : other ∈ list.2) :
    other = addr ∨ ∃ list ∈ lists, other ∈ list.2 := by
  induction lists with
  | nil =>
    rw [appendPrefix, List.mem_singleton] at member
    subst member
    exact .inl (List.mem_singleton.mp inside)
  | cons first rest ih =>
    rw [appendPrefix] at member
    split at member
    · rcases List.mem_cons.mp member with rfl | member
      · rcases List.mem_append.mp inside with old | new
        · exact .inr ⟨first, List.mem_cons_self, old⟩
        · exact .inl (List.mem_singleton.mp new)
      · exact .inr ⟨list, List.mem_cons_of_mem _ member, inside⟩
    · rcases List.mem_cons.mp member with rfl | member
      · exact .inr ⟨_, List.mem_cons_self, inside⟩
      · rcases ih member with same | ⟨other', member', inside'⟩
        · exact .inl same
        · exact .inr ⟨other', List.mem_cons_of_mem _ member', inside'⟩

/-- Every stored address has one of the two families. -/
theorem PrefixConfig.Reached.families (reached : PrefixConfig.Reached p config) :
    ∀ list ∈ config.contents, ∀ addr ∈ list.2,
      (AfAddr.ofBytes addr).af = afInet ∨ (AfAddr.ofBytes addr).af = afInet6 := by
  induction reached with
  | init =>
    intro list member
    cases member
  | @add config config' listName origAddr result earlier added ih =>
    obtain ⟨ids, members, linked⟩ := earlier.linked
    obtain ⟨literal, maskstr, split⟩ := exists_splitAt origAddr
    by_cases bad : p.parse (literalFamily literal) literal = none ∨
        onloadMask maskstr (maxMask (literalFamily literal)) = none
    · rw [onloadAddPrefix_rejects split bad] at added
      cases added
      exact ih
    · obtain ⟨parsed, mask⟩ := not_or.mp bad
      obtain ⟨bytes, parsed⟩ := Option.ne_none_iff_exists'.mp parsed
      obtain ⟨len, mask⟩ := Option.ne_none_iff_exists'.mp mask
      obtain ⟨stored, ids', members', ran, -, contents⟩ :=
        onloadAddPrefix_stores split parsed mask linked
      rw [ran] at added
      cases added
      rw [contents]
      intro list member addr inside
      rcases mem_appendPrefix member inside with rfl | ⟨other, member', inside'⟩
      · rw [show (AfAddr.ofBytes _).af = literalFamily literal from rfl, literalFamily]
        split
        · exact .inr rfl
        · exact .inl rfl
      · exact ih other member' addr inside'

/-- So do the prefixes of the list. -/
theorem onload_families (reached : PrefixConfig.Reached p config) :
    ∀ pfx ∈ config.onload, pfx.af = afInet ∨ pfx.af = afInet6 := by
  intro pfx member
  rw [PrefixConfig.onload] at member
  split at member
  · cases member
  · next list found =>
    obtain ⟨addr, inside, rfl⟩ := List.mem_map.mp member
    exact reached.families list (List.mem_of_find?_eq_some found) addr inside

/-- The list is searched for by its name, and its entries are placed. -/
theorem schedBasicPlacePrefixList_loop (reached : PrefixConfig.Reached p config) :
    ∃ entries start fuel, LinkedList.Linked config.entryNext start entries ∧
      entries.length ≤ fuel ∧
      config.onload = (entries.map fun entry =>
        AfAddr.ofBytes (config.entries.cell entry).addr) ∧
      ∀ c w, schedBasicPlacePrefixList c config 10 "onload".toList w =
        placePrefixListLoop c config 10 fuel start w := by
  obtain ⟨ids, members, linked⟩ := reached.linked
  have head : LinkedList.Linked config.listNext (config.deref .head) ids := linked.lists
  obtain ⟨list, next, search, result⟩ := PrefixConfig.Linked.lookup_loop head
    (linked.lists.length_le linked.listBound)
  have searched : lookupPrefixList "onload".toList config = .ok (list, next) := search
  cases list with
  | none =>
    refine ⟨[], none, 0, rfl, Nat.le_refl 0, ?_, fun c w => ?_⟩
    · rw [PrefixConfig.onload, linked.contents_eq, List.find?_eq_none.mpr]
      · rfl
      · intro list member
        obtain ⟨other, inside, rfl⟩ := List.mem_map.mp member
        exact fun chosen => result.1 other inside (of_decide_eq_true chosen)
    · rw [schedBasicPlacePrefixList, searched, ok_bind]
      rfl
  | some list =>
    obtain ⟨named, before, after, split, others⟩ := result
    have inside : list ∈ ids := by
      rw [split]
      exact List.mem_append_right _ List.mem_cons_self
    have entries := linked.entries list inside
    refine ⟨members list, _, config.entries.next, entries,
      entries.length_le (linked.entryBound list inside), ?_, fun c w => ?_⟩
    · rw [PrefixConfig.onload, linked.contents_eq, split, List.map_append, List.map_cons,
        List.find?_append, List.find?_eq_none.mpr, Option.none_or,
        List.find?_cons_of_pos]
      · simp only [List.map_map, Function.comp_def]
      · exact decide_eq_true named
      · intro list member
        obtain ⟨other, inside, rfl⟩ := List.mem_map.mp member
        exact fun chosen => others other inside (of_decide_eq_true chosen)
    · rw [schedBasicPlacePrefixList, searched, ok_bind]

/-- The prefixes of the list are placed where their chains have room for them. -/
theorem schedBasicPlacePrefixList_lays (reached : PrefixConfig.Reached p config) (depth : Nat)
    {w : World} (lays : w.Lays (initialRequests w.config.flowerFlags [])) :
    ((∃ w', schedBasicPlacePrefixList (calls (depth + 1)) config 10 "onload".toList w = .ok w') ↔
      ∀ af, ofFamily af config.onload ≤ 65526) ∧
    ∀ w', schedBasicPlacePrefixList (calls (depth + 1)) config 10 "onload".toList w = .ok w' →
      w'.Lays (initialRequests w.config.flowerFlags config.onload) := by
  have families := onload_families reached
  obtain ⟨entries, start, fuel, linked, enough, listed, loop⟩ :=
    schedBasicPlacePrefixList_loop reached
  rw [listed] at families ⊢
  simp only [loop]
  have ends : ∀ w', placePrefixListLoop (calls (depth + 1)) config 10 fuel start w = .ok w' →
      ∀ af, ofFamily af (entries.map fun entry =>
        AfAddr.ofBytes (config.entries.cell entry).addr) ≤ 65526 := by
    intro w' ran af
    exact placePrefixListLoop_room linked lays families (fun _ => Nat.zero_le _) ran af
  have places := placePrefixListLoop_lays depth linked enough lays families
  refine ⟨⟨fun returns => ?_, fun room => ?_⟩, fun w' ran => ?_⟩
  · obtain ⟨w', ran⟩ := returns
    exact ends w' ran
  · obtain ⟨w', ran, -⟩ := places room
    exact ⟨w', ran⟩
  · obtain ⟨w₁, ran₁, lays₁⟩ := places (ends w' ran)
    rw [ran₁] at ran
    cases ran
    exact lays₁

end Lists

/-- The requests that come before the list's all succeed. -/
theorem initialRequests_families {w : World} (blank : w.Blank) (depth : Nat) :
    ∃ w', w'.config = w.config ∧ w'.Lays (initialRequests w'.config.flowerFlags []) ∧
      ∀ config, schedBasicInitialRequests (calls (depth + 1)) config w =
        schedBasicPlacePrefixList (calls (depth + 1)) config 10 "onload".toList w' := by
  have lays := World.Lays.blank blank
  obtain ⟨w₁, ran₁, lays₁, same₁⟩ := lays.staticWant depth
    ⟨0, 1, initialRule w.config.flowerFlags .routeGoto ⟨afInet, 0, 0, 0⟩ 1⟩
    (show Small 0 by decide) (lays.free 0 1 [] rfl (by decide))
  obtain ⟨w₂, ran₂, lays₂, same₂⟩ := lays₁.staticWant depth
    ⟨0, 2, initialRule w.config.flowerFlags .routeGoto ⟨afInet6, 3, unicast6, 0⟩ 2⟩
    (show Small 0 by decide) (lays₁.free 0 2 [(0, 1)] rfl (by decide))
  obtain ⟨w₃, ran₃, lays₃, same₃⟩ := lays₂.staticWant depth
    ⟨1, 1, initialRule w.config.flowerFlags .ttlCheck ⟨afInet, 0, 0, 0⟩ 0⟩
    (show Small 1 by decide) (lays₂.free 1 1 [(0, 1), (0, 2)] rfl (by decide))
  obtain ⟨w₄, ran₄, lays₄, same₄⟩ := lays₃.staticWant depth
    ⟨2, 1, initialRule w.config.flowerFlags .ttlCheck ⟨afInet6, 0, 0, 0⟩ 0⟩
    (show Small 2 by decide) (lays₃.free 2 1 [(0, 1), (0, 2), (1, 1)] rfl (by decide))
  have flags₂ : w₂.config = w.config := same₂.trans same₁
  have flags₃ : w₃.config = w.config := same₃.trans flags₂
  have flags₄ : w₄.config = w.config := same₄.trans flags₃
  have first : w₄.Lays (initialRequests w₄.config.flowerFlags []) := by
    rw [flags₄]
    exact lays₄
  refine ⟨w₄, flags₄, first, fun config => ?_⟩
  have step₁ : requestAfGotoRule (calls (depth + 1)) 0 1 afInet 1 w = .ok w₁ := ran₁
  have step₂ : requestAfGotoRule (calls (depth + 1)) 0 2 afInet6 2 w₁ = .ok w₂ := by
    rw [← same₁] at ran₂
    exact ran₂
  have step₃ : requestTtlCheck (calls (depth + 1)) 1 1 afInet w₂ = .ok w₃ := by
    rw [← flags₂] at ran₃
    exact ran₃
  have step₄ : requestTtlCheck (calls (depth + 1)) 2 1 afInet6 w₃ = .ok w₄ := by
    rw [← flags₃] at ran₄
    exact ran₄
  rw [schedBasicInitialRequests, step₁, ok_bind, step₂, ok_bind, step₃, ok_bind, step₄, ok_bind]

section Runs

variable {good : Owners → ChainEvent → Prop} {v w' : World} {s : Owners} {bound : Nat}

/-- A condition on events that the requests at the start meet: their chains are the first three,
and none of them is a ROUTE_GOTO rule of a family's chain. -/
def AdmitsInitial (good : Owners → ChainEvent → Prop) : Prop :=
  ∀ s chainNo prio tcr, chainNo.toNat ≤ 2 → ¬ tcr.Routes chainNo →
    good s (.rule (.staticWant chainNo prio tcr))

/-- Runs whose ROUTE_GOTO rules are ranked admit them. -/
theorem admitsInitial_ranks : AdmitsInitial fun s e => e.Ranks s := by
  intro s chainNo prio tcr small apart
  refine ⟨show chainNo.toNat < 2 ^ 28 by omega, fun event same => ?_⟩
  cases same
  exact apart

/-- A request at the start is an event of a run. -/
theorem objRuleStaticWant_reached (admits : AdmitsInitial good)
    (reached : Owners.ChainReached good v s) {chainNo : UInt32} {prio : UInt16} {tcr : TcRule}
    (small : chainNo.toNat ≤ 2) (apart : ¬ tcr.Routes chainNo)
    (ran : objRuleStaticWant (calls bound) chainNo prio tcr s.world = .ok w') :
    Owners.ChainReached good v { s with world := w' } := by
  have event : ChainEvent.run bound s (.rule (.staticWant chainNo prio tcr)) =
      .ok { s with world := w' } := by
    rw [ChainEvent.run, RuleEvent.run, ran]
    rfl
  have allowed : ChainEvent.Allowed s (.rule (.staticWant chainNo prio tcr)) := trivial
  exact reached.step allowed (admits s chainNo prio tcr small apart) event

/-- So is every round of the loop over a list of prefixes. -/
theorem placePrefixListLoop_reached (admits : AdmitsInitial good) {config : PrefixConfig}
    {basePrio : UInt16} {fuel : Nat} {start : Option PrefixEntryId}
    (reached : Owners.ChainReached good v s)
    (ran : placePrefixListLoop (calls bound) config basePrio fuel start s.world = .ok w') :
    Owners.ChainReached good v { s with world := w' } := by
  induction fuel generalizing start s with
  | zero =>
    cases start with
    | none =>
      cases ran
      exact reached
    | some pfx => cases ran
  | succ fuel ih =>
    cases start with
    | none =>
      cases ran
      exact reached
    | some pfx =>
      obtain ⟨chainNo, chain, placed⟩ := bind_returned ran
      obtain ⟨-, rfl⟩ := getAfChain_iff.mp chain
      obtain ⟨prio, -, placed⟩ := bind_returned placed
      obtain ⟨w₁, wanted, rest⟩ := bind_returned placed
      rw [requestOnloadRule_eq] at wanted
      have small : (familyChain (AfAddr.ofBytes (config.entries.cell pfx).addr).af).toNat ≤ 2 := by
        rw [familyChain]
        split <;> decide
      have next := objRuleStaticWant_reached admits reached small
        (fun routes => by cases routes.1) wanted
      exact ih (s := { s with world := w₁ }) next rest

/-- The state after the start is one of a run, so all that holds of runs holds from there on. -/
theorem schedBasicInitialRequests_reached (admits : AdmitsInitial good) {config : PrefixConfig}
    {w : World} (ran : schedBasicInitialRequests (calls bound) config w = .ok w') :
    Owners.ChainReached good w { world := w' } := by
  obtain ⟨w₁, ran₁, ran⟩ := bind_returned ran
  obtain ⟨w₂, ran₂, ran⟩ := bind_returned ran
  obtain ⟨w₃, ran₃, ran⟩ := bind_returned ran
  obtain ⟨w₄, ran₄, ran⟩ := bind_returned ran
  rw [requestAfGotoRule_eq] at ran₁ ran₂
  rw [requestTtlCheck_eq] at ran₃ ran₄
  -- the goto rules are in no family's chain
  have apart : ∀ tcr : TcRule, ¬ tcr.Routes 0 := by
    rintro tcr ⟨-, chain⟩
    obtain ⟨-, same⟩ := getAfChain_iff.mp chain
    rw [familyChain] at same
    split at same <;> cases same
  have trap : ∀ {flowerFlags afAddr chainNo},
      ¬ (initialRule flowerFlags .ttlCheck afAddr 0).Routes chainNo := by
    rintro _ _ _ ⟨routes, -⟩
    cases routes
  have reached₁ := objRuleStaticWant_reached admits .start (by decide) (apart _) ran₁
  have reached₂ := objRuleStaticWant_reached admits reached₁ (by decide) (apart _) ran₂
  have reached₃ := objRuleStaticWant_reached admits reached₂ (by decide) trap ran₃
  have reached₄ := objRuleStaticWant_reached admits reached₃ (by decide) trap ran₄
  obtain ⟨⟨list, tail⟩, -, ran⟩ := bind_returned ran
  cases list with
  | none =>
    cases ran
    exact reached₄
  | some list => exact placePrefixListLoop_reached admits reached₄ ran

/-- The order of the ROUTE_GOTO rules holds after the start. -/
theorem initial_arranged {config : PrefixConfig} {w : World} (blank : w.Blank)
    (kernel : ∀ chainNo prio tcr, w.kernel.filters chainNo prio = some tcr →
      ¬ tcr.Routes chainNo)
    (ran : schedBasicInitialRequests (calls bound) config w = .ok w') :
    Between Arranged { world := w' } :=
  (schedBasicInitialRequests_reached admitsInitial_ranks ran).arranged blank kernel

end Runs

/-- The requests at the start succeed exactly where the list has at most 65526 prefixes of each
family. After them the rules are exactly theirs: the prefixes of each family, in the order of the
list, at the priorities from 10 on. So a route's filter comes behind those of all prefixes of its
family, and at priority 100 where there are not more than ninety. -/
theorem initial_rules {p : InetPton} {config : PrefixConfig}
    (reached : PrefixConfig.Reached p config) {w : World} (blank : w.Blank) (depth : Nat) :
    ((∃ w', schedBasicInitialRequests (calls (depth + 1)) config w = .ok w') ↔
      ∀ af, ofFamily af config.onload ≤ 65526) ∧
    ∀ w', schedBasicInitialRequests (calls (depth + 1)) config w = .ok w' →
      w'.Lays (initialRequests w.config.flowerFlags config.onload) ∧
      ∀ af chainNo, getAfChain af = .ok chainNo → ofFamily af config.onload < 65526 →
        objRuleFindAvailablePrio chainNo 100 w' =
          .ok (UInt16.ofNat (max 100 (10 + ofFamily af config.onload))) := by
  obtain ⟨w₁, same, lays, steps⟩ := initialRequests_families blank depth
  have placed := schedBasicPlacePrefixList_lays reached depth lays
  rw [same] at placed
  simp only [steps]
  refine ⟨placed.1, fun w' ran => ⟨placed.2 w' ran, fun af chainNo chain few => ?_⟩⟩
  obtain ⟨family, rfl⟩ := getAfChain_iff.mp chain
  exact initial_next (placed.2 w' ran) family (onload_families reached) few (.inr rfl)

/-- With one prefix on the list the first route of its family is still at priority 100. The trap
is for what is stored, with the third octet of the address in the padding. -/
theorem initial_rules_one :
    ∃ config w', onloadAddPrefix documentationPton "onload".toList "192.0.2.0/24".toList {} =
        .ok (0, config) ∧
      config.onload = [⟨afInet, 24, 0, 0x0200⟩] ∧
      schedBasicInitialRequests (calls 1) config blankWorld = .ok w' ∧
      w'.Lays (initialRequests blankWorld.config.flowerFlags config.onload) ∧
      objRuleFindAvailablePrio 1 100 w' = .ok 100 := by
  obtain ⟨config, added, contents⟩ : ∃ config,
      onloadAddPrefix documentationPton "onload".toList "192.0.2.0/24".toList {} =
        .ok (0, config) ∧
      config.contents = [("onload".toList, [[2, 24, 2, 0] ++ List.replicate 16 0])] :=
    ⟨_, rfl, rfl⟩
  have one : config.onload = [⟨afInet, 24, 0, 0x0200⟩] := by
    rw [PrefixConfig.onload, contents]
    decide
  have few : ∀ af, ofFamily af config.onload ≤ 1 := by
    intro af
    rw [one]
    exact List.countP_le_length
  obtain ⟨returns, rules⟩ := initial_rules (.add .init added) blankWorld_blank 0
  obtain ⟨w', ran⟩ := returns.mpr fun af => Nat.le_trans (few af) (by decide)
  obtain ⟨lays, next⟩ := rules w' ran
  refine ⟨config, w', added, one, ran, lays, ?_⟩
  rw [next afInet 1 rfl (Nat.lt_of_le_of_lt (few afInet) (by decide)), Nat.max_eq_left]
  · rfl
  · have bound := few afInet
    omega

end FlowerRoute
