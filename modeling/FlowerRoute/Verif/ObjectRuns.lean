import FlowerRoute.Model.Owners
import FlowerRoute.Verif.MessageSteps
import FlowerRoute.Verif.StateMachine

/-!
# What the daemon knows

The links and neighbours that the messages of the monitor told of, as a table that is computed
from the messages alone, and the runs in which the objects of the daemon agree with it.
-/

namespace FlowerRoute

open Outcome Index Routing

/-- A link as the messages told of it: the last one about it, whether a route holds it, and the
neighbours on it. -/
structure KnownLink where
  msg : LinkMsg
  held : Bool := false
  neighs : AfAddr → Option Lladdr := fun _ => none

/-- The links that the messages told of, by index. -/
abbrev KnownLinks := Int → Option KnownLink

/-- What a message tells. A link that a route holds is not forgotten when it is gone. -/
def KnownLinks.hear (known : KnownLinks) : Message → KnownLinks
  | .link nlmsgType m =>
    match known m.ifindex with
    | none =>
      if nlmsgType = rtmDellink then known
      else Function.update known m.ifindex (some { msg := m })
    | some link =>
      if nlmsgType = rtmDellink then
        if link.held then known else Function.update known m.ifindex none
      else Function.update known m.ifindex (some { link with msg := m })
  | .neigh nlmsgType ifindex af addr lladdr =>
    match known ifindex, buildAfAddr af addr 0 with
    | some link, .ok afAddr => Function.update known ifindex (some { link with
        neighs := Function.update link.neighs afAddr
          (if nlmsgType = rtmDelneigh then none else some (lladdrSet lladdr)) })
    | _, _ => known
  | .route _ oif af nh _ =>
    match known oif, buildAfAddr af nh 0 with
    | some link, .ok afAddr =>
      if (link.neighs afAddr).isSome then known
      else Function.update known oif (some { link with held := true })
    | _, _ => known

namespace Tables

variable {t t' : Tables} {known : KnownLinks}

/-- A neighbour of a link has an address. -/
def Has (t : Tables) (l : LinkId) (addr : AfAddr) (lladdr : Lladdr) : Prop :=
  ∃ n, t.Lists l addr n ∧ (t.neigh n).lladdr = lladdr

/-- A link is as the messages told. -/
structure Shows (t : Tables) (l : LinkId) (link : KnownLink) : Prop where
  msg : t.link l = (t.link l).set link.msg
  held : link.held = true ↔ (t.link l).obj.refcnt ≠ 0
  neighs : ∀ addr lladdr, link.neighs addr = some lladdr ↔ t.Has l addr lladdr

/-- The links are as the messages told. -/
structure Follows (t : Tables) (known : KnownLinks) : Prop where
  absent : ∀ {ifindex : Int}, known ifindex = none → ∀ l, ¬ t.Knows ifindex l
  present : ∀ {ifindex : Int} {link : KnownLink}, known ifindex = some link →
    ∃ l, t.Knows ifindex l ∧ t.Shows l link

/-- There is one live link of an index. -/
theorem Sound.unique (sound : t.Sound) {ifindex : Int} {l l' : LinkId} (known : t.Knows ifindex l)
    (known' : t.Knows ifindex l') : l' = l := by
  obtain ⟨found, -, finds⟩ := sound.find_link ifindex
  have first := (finds l).mpr known
  rw [(finds l').mpr known'] at first
  exact Option.some.inj first

/-- There is one neighbour of an address in the table of a link. -/
theorem Sound.lists_unique (sound : t.Sound) {l : LinkId} (live : (t.link l).obj.kind = .link)
    {addr : AfAddr} {n n' : NeighId} (listed : t.Lists l addr n) (listed' : t.Lists l addr n') :
    n' = n := by
  obtain ⟨found, -, finds⟩ := sound.find_neigh live addr
  have first := (finds n).mpr listed
  rw [(finds n').mpr listed'] at first
  exact Option.some.inj first

namespace Follows

/-- The link of a known index. -/
theorem shows (follows : t.Follows known) (sound : t.Sound) {ifindex : Int} {l : LinkId}
    (knows : t.Knows ifindex l) : ∃ link, known ifindex = some link ∧ t.Shows l link := by
  cases found : known ifindex with
  | none => exact absurd knows (follows.absent found l)
  | some link =>
    obtain ⟨l', knows', shows⟩ := follows.present found
    rw [sound.unique knows knows'] at shows
    exact ⟨link, rfl, shows⟩

/-- An index that is not known. -/
theorem unknown (follows : t.Follows known) {ifindex : Int} (absent : ∀ l, ¬ t.Knows ifindex l) :
    known ifindex = none := by
  cases found : known ifindex with
  | none => rfl
  | some link =>
    obtain ⟨l, knows, -⟩ := follows.present found
    exact absurd knows (absent l)

end Follows

/-- Another link is as it was. -/
structure SameLink (t t' : Tables) (l : LinkId) : Prop where
  link : t'.link l = t.link l
  neigh : ∀ n ∈ (t.link l).fdb.toList, t'.neigh n = t.neigh n

theorem SameLink.lists {l : LinkId} (same : SameLink t t' l) (addr : AfAddr) (n : NeighId) :
    t'.Lists l addr n ↔ t.Lists l addr n := by
  constructor
  · intro listed
    have inside : n ∈ (t.link l).fdb.toList := same.link ▸ listed.inside
    exact ⟨inside, same.neigh n inside ▸ listed.addr⟩
  · intro listed
    exact ⟨same.link ▸ listed.inside, (same.neigh n listed.inside).symm ▸ listed.addr⟩

theorem SameLink.shows {l : LinkId} {link : KnownLink} (same : SameLink t t' l)
    (shows : t.Shows l link) : t'.Shows l link where
  msg := by
    rw [same.link]
    exact shows.msg
  held := by
    rw [same.link]
    exact shows.held
  neighs addr lladdr := by
    rw [shows.neighs]
    refine exists_congr fun n => ?_
    rw [same.lists]
    exact and_congr_right fun listed => by rw [same.neigh n listed.inside]

/-- The links keep their indexes. -/
def SameKeys (t t' : Tables) : Prop :=
  ∀ l, (t'.link l).obj.kind = (t.link l).obj.kind ∧ (t'.link l).ifindex = (t.link l).ifindex

theorem SameKeys.knows (same : SameKeys t t') {ifindex : Int} {l : LinkId} :
    t'.Knows ifindex l ↔ t.Knows ifindex l :=
  ⟨fun known => ⟨(same l).1 ▸ known.live, (same l).2 ▸ known.ifindex⟩,
    fun known => ⟨(same l).1.trans known.live, (same l).2.trans known.ifindex⟩⟩

/-- All links are as they were. -/
theorem Follows.keep (follows : t.Follows known) (keys : SameKeys t t')
    (same : ∀ l, (t.link l).obj.kind = .link → SameLink t t' l) : t'.Follows known := by
  constructor
  · intro ifindex unknown l knows
    exact follows.absent unknown l (keys.knows.mp knows)
  · intro ifindex link found
    obtain ⟨l, knows, shows⟩ := follows.present found
    exact ⟨l, keys.knows.mpr knows, (same l knows.live).shows shows⟩

/-- A new neighbour that is in no table. -/
theorem Follows.addNeigh (follows : t.Follows known) (sound : t.Sound) (neigh : ObjNeigh) :
    (t.addNeigh neigh).Follows known :=
  follows.keep (fun _ => ⟨rfl, rfl⟩) fun _ live => ⟨rfl, fun _ inside =>
    neigh_setNeigh_ne _ _ fun same => sound.next_loose live (same ▸ inside)⟩

/-- A message changes one link that is known. -/
theorem Follows.setOne (follows : t.Follows known) {ifindex : Int} {l : LinkId}
    {link : KnownLink} (knows : t.Knows ifindex l)
    (keys : SameKeys t t')
    (other : ∀ l', l' ≠ l → (t.link l').obj.kind = .link → SameLink t t' l')
    (shows : t'.Shows l link) : t'.Follows (Function.update known ifindex (some link)) := by
  constructor
  · intro ifindex' unknown l' knows'
    by_cases here : ifindex' = ifindex
    · subst here
      rw [Function.update_self] at unknown
      cases unknown
    · rw [Function.update_of_ne here] at unknown
      exact follows.absent unknown l' (keys.knows.mp knows')
  · intro ifindex' link' found
    by_cases here : ifindex' = ifindex
    · subst here
      rw [Function.update_self] at found
      cases found
      exact ⟨l, keys.knows.mpr knows, shows⟩
    · rw [Function.update_of_ne here] at found
      obtain ⟨l', knows', shows'⟩ := follows.present found
      have away : l' ≠ l := fun eq => here (by rw [← knows.ifindex, ← knows'.ifindex, eq])
      exact ⟨l', keys.knows.mpr knows', (other l' away knows'.live).shows shows'⟩

/-- A message that tells nothing new. -/
theorem Follows.same (follows : t.Follows known) {known' : KnownLinks} (same : known' = known) :
    t.Follows known' := same ▸ follows

/-- A link that is known already as it will be. -/
theorem update_known {ifindex : Int} {link : KnownLink} (found : known ifindex = some link) :
    Function.update known ifindex (some link) = known := by
  rw [← found, Function.update_eq_self]

/-- A write to a link that keeps its index. -/
theorem key_setLink {l : LinkId} {link : ObjLink} (kind : link.obj.kind = (t.link l).obj.kind)
    (ifindex : link.ifindex = (t.link l).ifindex) : SameKeys t (t.setLink l link) := by
  intro l'
  by_cases here : l' = l
  · subst here
    rw [link_setLink_same]
    exact ⟨kind, ifindex⟩
  · rw [link_setLink_ne _ _ here]
    exact ⟨rfl, rfl⟩

/-- A link whose table stays. -/
theorem shows_setLink {l : LinkId} {entry : ObjLink} {link link' : KnownLink}
    (shows : t.Shows l link) (fdb : entry.fdb = (t.link l).fdb) (msg : entry = entry.set link'.msg)
    (held : link'.held = true ↔ entry.obj.refcnt ≠ 0) (neighs : link'.neighs = link.neighs) :
    (t.setLink l entry).Shows l link' := by
  refine ⟨by rwa [link_setLink_same], by rwa [link_setLink_same], fun addr lladdr => ?_⟩
  rw [neighs, shows.neighs]
  refine exists_congr fun n => and_congr_left fun _ => ?_
  have table : ((t.setLink l entry).link l).fdb = (t.link l).fdb := by rw [link_setLink_same, fdb]
  exact ⟨fun listed => ⟨table.symm ▸ listed.inside, listed.addr⟩,
    fun listed => ⟨table ▸ listed.inside, listed.addr⟩⟩

section Messages

variable {l : LinkId}

/-- A link that gets new fields. -/
theorem Follows.linkSet (follows : t.Follows known) (sound : t.Sound) {nlmsgType : UInt16}
    {m : LinkMsg} (new : nlmsgType ≠ rtmDellink) (knows : t.Knows m.ifindex l) :
    (t.setLink l ((t.link l).set m)).Follows (known.hear (.link nlmsgType m)) := by
  obtain ⟨link, found, shows⟩ := follows.shows sound knows
  simp only [KnownLinks.hear, found, if_neg new]
  exact follows.setOne knows (key_setLink rfl rfl)
    (fun l' away _ => ⟨link_setLink_ne _ _ away, fun _ _ => rfl⟩)
    (shows_setLink shows rfl rfl shows.held rfl)

/-- A link that is held stays as it is. -/
theorem Follows.linkKept (follows : t.Follows known) (sound : t.Sound) {m : LinkMsg}
    (knows : t.Knows m.ifindex l) (held : (t.link l).obj.refcnt ≠ 0) :
    (t.setLink l { t.link l with obj := { (t.link l).obj with state := .present } }).Follows
      (known.hear (.link rtmDellink m)) := by
  obtain ⟨link, found, shows⟩ := follows.shows sound knows
  simp only [KnownLinks.hear, found, if_true, shows.held.mpr held]
  rw [← update_known found]
  refine follows.setOne knows (key_setLink rfl rfl)
    (fun l' away _ => ⟨link_setLink_ne _ _ away, fun _ _ => rfl⟩)
    (shows_setLink shows rfl ?_ shows.held rfl)
  have msg := shows.msg
  generalize t.link l = entry at msg ⊢
  rw [msg]
  rfl

/-- No neighbour is told of where none is listed. -/
theorem Shows.neighs_none {link : KnownLink} (shows : t.Shows l link) {addr : AfAddr}
    (absent : ∀ n, ¬ t.Lists l addr n) : link.neighs addr = none := by
  cases told : link.neighs addr with
  | none => rfl
  | some lladdr =>
    obtain ⟨n, listed, -⟩ := (shows.neighs addr lladdr).mp told
    exact absurd listed (absent n)

/-- A link that differs in what it was not told. -/
theorem Shows.msg_congr {link : KnownLink} (shows : t.Shows l link) {obj : ObjCore}
    {fdb : SearchTree NeighId} :
    ({ t.link l with obj, fdb } : ObjLink) = ObjLink.set link.msg { t.link l with obj, fdb } := by
  have msg := shows.msg
  generalize t.link l = entry at msg ⊢
  rw [msg]
  rfl

/-- A route's neighbour holds its link. -/
theorem Follows.routeHeld (follows : t.Follows known) (sound : t.Sound) {nlmsgType : UInt16}
    {oif : Int} {af : UInt8} {nh : Option SomeInAddr} {dst afAddr : AfAddr}
    (knows : t.Knows oif l) (built : buildAfAddr af nh 0 = .ok afAddr)
    (absent : ∀ n, ¬ t.Lists l afAddr n) :
    (t.getNeigh l afAddr).Follows (known.hear (.route nlmsgType oif af nh dst)) := by
  obtain ⟨link, found, shows⟩ := follows.shows sound knows
  simp only [KnownLinks.hear, found, built, shows.neighs_none absent, Option.isSome_none,
    if_neg Bool.false_ne_true]
  let neigh : ObjNeigh := { obj := { kind := .neigh }, link := some l, addr := afAddr }
  have follows₁ := follows.addNeigh sound neigh
  have knows₁ : (t.addNeigh neigh).Knows oif l := ⟨knows.live, knows.ifindex⟩
  obtain ⟨link₁, found₁, shows₁⟩ := follows₁.shows (sound.addNeigh neigh) knows₁
  rw [found] at found₁
  cases found₁
  refine follows₁.setOne knows₁ (key_setLink rfl rfl)
    (fun l' away _ => ⟨link_setLink_ne _ _ away, fun _ _ => rfl⟩)
    (shows_setLink shows₁ rfl shows₁.msg_congr ?_ rfl)
  simp

/-- A neighbour that is gone already. -/
theorem Follows.neighAbsent (follows : t.Follows known) (sound : t.Sound) {ifindex : Int}
    {af : UInt8} {addr : Option SomeInAddr} {lladdr : Option Lladdr} {afAddr : AfAddr}
    (knows : t.Knows ifindex l) (built : buildAfAddr af addr 0 = .ok afAddr)
    (absent : ∀ n, ¬ t.Lists l afAddr n) :
    t.Follows (known.hear (.neigh rtmDelneigh ifindex af addr lladdr)) := by
  obtain ⟨link, found, shows⟩ := follows.shows sound knows
  simp only [KnownLinks.hear, found, built, if_true]
  rw [← shows.neighs_none absent, Function.update_eq_self, update_known found]
  exact follows

/-- The table with a new neighbour. -/
theorem lists_newNeigh {addr : AfAddr} {lladdr : Lladdr} {linked : SearchTree NeighId}
    (done : (t.link l).fdb.link (t.neighCompare addr) t.nextNeigh = .ok (some linked))
    (fresh : t.nextNeigh ∉ (t.link l).fdb.toList) (addr' : AfAddr) (n : NeighId) :
    (t.newNeigh l addr lladdr linked).Lists l addr' n ↔
      n = t.nextNeigh ∧ addr' = addr ∨ t.Lists l addr' n := by
  have table : ((t.newNeigh l addr lladdr linked).link l).fdb.toList = linked.toList := by
    rw [newNeigh, link_setLink_same]
    exact SearchTree.Balancing.insertColor_toList ..
  have here : ((t.newNeigh l addr lladdr linked).neigh t.nextNeigh).addr = addr :=
    congrArg ObjNeigh.addr (neigh_setNeigh_same ..)
  have other : ∀ n ∈ (t.link l).fdb.toList, (t.newNeigh l addr lladdr linked).neigh n = t.neigh n :=
    fun n inside => neigh_setNeigh_ne _ _ fun same => fresh (same ▸ inside)
  constructor
  · intro listed
    have inside := listed.inside
    rw [table, SearchTree.mem_link done] at inside
    rcases inside with rfl | old
    · exact .inl ⟨rfl, listed.addr.symm.trans here⟩
    · exact .inr ⟨old, other n old ▸ listed.addr⟩
  · rintro (⟨rfl, rfl⟩ | old)
    · exact ⟨by rw [table, SearchTree.mem_link done]; exact .inl rfl, here⟩
    · refine ⟨?_, (congrArg ObjNeigh.addr (other n old.inside)).trans old.addr⟩
      rw [table, SearchTree.mem_link done]
      exact .inr old.inside

/-- What is told of one neighbour changes. -/
theorem Shows.update {link : KnownLink} (shows : t.Shows l link) {addr : AfAddr}
    {told : Option Lladdr} (obj : (t'.link l).obj = (t.link l).obj)
    (entry : ∃ fdb, t'.link l = { t.link l with fdb })
    (other : ∀ addr', addr' ≠ addr → ∀ lladdr, t'.Has l addr' lladdr ↔ t.Has l addr' lladdr)
    (here : ∀ lladdr, told = some lladdr ↔ t'.Has l addr lladdr) :
    t'.Shows l { link with neighs := Function.update link.neighs addr told } where
  msg := by
    obtain ⟨fdb, entry⟩ := entry
    rw [entry]
    exact shows.msg_congr
  held := by
    rw [obj]
    exact shows.held
  neighs addr' lladdr := by
    dsimp only
    by_cases same : addr' = addr
    · subst same
      rw [Function.update_self]
      exact here lladdr
    · rw [Function.update_of_ne same, shows.neighs]
      exact (other addr' same lladdr).symm

/-- A neighbour's address becomes known. -/
theorem Follows.neighNew (follows : t.Follows known) (sound : t.Sound) {nlmsgType : UInt16}
    {ifindex : Int} {af : UInt8} {addr : Option SomeInAddr} {lladdr : Option Lladdr}
    {afAddr : AfAddr} {linked : SearchTree NeighId} (new : nlmsgType ≠ rtmDelneigh)
    (knows : t.Knows ifindex l) (built : buildAfAddr af addr 0 = .ok afAddr)
    (absent : ∀ n, ¬ t.Lists l afAddr n)
    (done : (t.link l).fdb.link (t.neighCompare afAddr) t.nextNeigh = .ok (some linked)) :
    (t.newNeigh l afAddr (lladdrSet lladdr) linked).Follows
      (known.hear (.neigh nlmsgType ifindex af addr lladdr)) := by
  let neigh : ObjNeigh := {
    obj := { kind := .neigh, state := .installed }
    link := some l
    addr := afAddr
    lladdr := lladdrSet lladdr }
  have follows₁ := follows.addNeigh sound neigh
  have knows₁ : (t.addNeigh neigh).Knows ifindex l := ⟨knows.live, knows.ifindex⟩
  obtain ⟨link, found, shows⟩ := follows.shows sound knows
  have fresh := sound.next_loose knows.live
  have here : (t.newNeigh l afAddr (lladdrSet lladdr) linked).neigh t.nextNeigh = neigh :=
    neigh_setNeigh_same ..
  have entry : (t.newNeigh l afAddr (lladdrSet lladdr) linked).link l = _ := link_setLink_same ..
  simp only [KnownLinks.hear, found, built, if_neg new]
  refine follows₁.setOne knows₁ (key_setLink rfl rfl)
    (fun l' away _ => ⟨link_setLink_ne _ _ away, fun _ _ => rfl⟩)
    (shows.update (by rw [entry]) ⟨_, entry⟩ (fun addr' same lladdr' => ?_) fun lladdr' => ?_)
  · refine exists_congr fun n => ?_
    rw [lists_newNeigh done fresh]
    simp only [same, and_false, false_or]
    refine and_congr_right fun old => ?_
    have other : n ≠ t.nextNeigh := fun eq => fresh (eq ▸ old.inside)
    rw [show (t.newNeigh l afAddr (lladdrSet lladdr) linked).neigh n = t.neigh n from
      neigh_setNeigh_ne _ _ other]
  · constructor
    · intro told
      cases told
      exact ⟨t.nextNeigh, (lists_newNeigh done fresh _ _).mpr (.inl ⟨rfl, rfl⟩), by rw [here]⟩
    · rintro ⟨n, listed, rfl⟩
      rcases (lists_newNeigh done fresh _ _).mp listed with ⟨rfl, -⟩ | old
      · rw [here]
      · exact absurd old (absent n)

/-- A neighbour gets another address. -/
theorem Follows.neighSet (follows : t.Follows known) (sound : t.Sound) {nlmsgType : UInt16}
    {ifindex : Int} {af : UInt8} {addr : Option SomeInAddr} {lladdr : Option Lladdr}
    {afAddr : AfAddr} {n : NeighId} (new : nlmsgType ≠ rtmDelneigh) (knows : t.Knows ifindex l)
    (built : buildAfAddr af addr 0 = .ok afAddr) (listed : t.Lists l afAddr n) :
    (t.setNeigh n { t.neigh n with lladdr := lladdrSet lladdr }).Follows
      (known.hear (.neigh nlmsgType ifindex af addr lladdr)) := by
  obtain ⟨link, found, shows⟩ := follows.shows sound knows
  have lists : ∀ addr' p, (t.setNeigh n { t.neigh n with lladdr := lladdrSet lladdr }).Lists l addr'
      p ↔ t.Lists l addr' p := fun addr' p => by
    have addr : ((t.setNeigh n { t.neigh n with lladdr := lladdrSet lladdr }).neigh p).addr =
        (t.neigh p).addr := by
      by_cases here : p = n
      · subst here
        rw [neigh_setNeigh_same]
      · rw [neigh_setNeigh_ne _ _ here]
    exact ⟨fun listed => ⟨listed.inside, addr.symm.trans listed.addr⟩,
      fun listed => ⟨listed.inside, addr.trans listed.addr⟩⟩
  simp only [KnownLinks.hear, found, built, if_neg new]
  refine follows.setOne knows (fun _ => ⟨rfl, rfl⟩) (fun l' away live => ⟨rfl, fun p inside => ?_⟩)
    (shows.update rfl ⟨_, rfl⟩ (fun addr' same lladdr' => ?_) fun lladdr' => ?_)
  · refine neigh_setNeigh_ne _ _ fun same => away ?_
    exact sound.own_link knows.live live listed.inside (same ▸ inside)
  · refine exists_congr fun p => ?_
    rw [lists]
    refine and_congr_right fun listed' => ?_
    have other : p ≠ n := fun eq => same (by rw [← listed'.addr, eq, listed.addr])
    rw [neigh_setNeigh_ne _ _ other]
  · constructor
    · intro told
      cases told
      exact ⟨n, (lists _ _).mpr listed, by rw [neigh_setNeigh_same]⟩
    · rintro ⟨p, listed', rfl⟩
      rw [sound.lists_unique knows.live listed ((lists _ _).mp listed'), neigh_setNeigh_same]

/-- A neighbour is forgotten. -/
theorem Follows.neighGone (follows : t.Follows known) (sound : t.Sound)
    {ifindex : Int} {af : UInt8} {addr : Option SomeInAddr} {lladdr : Option Lladdr}
    {afAddr : AfAddr} {n : NeighId} (knows : t.Knows ifindex l)
    (built : buildAfAddr af addr 0 = .ok afAddr) (listed : t.Lists l afAddr n) :
    (t.reapNeigh n).Follows (known.hear (.neigh rtmDelneigh ifindex af addr lladdr)) := by
  obtain ⟨link, found, shows⟩ := follows.shows sound knows
  have table := sound.tables l knows.live
  have own := (table.own n listed.inside).2
  have emptied := t.emptied_reapNeigh own
  have entry := t.link_reapNeigh own
  have inside : ∀ p, p ∈ ((t.reapNeigh n).link l).fdb.toList ↔ p ≠ n ∧ p ∈ (t.link l).fdb.toList :=
    fun p => by
      rw [entry, SearchTree.Balancing.erase_toList, (nodup_of_order table.order).mem_erase_iff]
  have lists : ∀ addr' p, (t.reapNeigh n).Lists l addr' p ↔ p ≠ n ∧ t.Lists l addr' p :=
    fun addr' p => by
      constructor
      · intro listed
        obtain ⟨other, old⟩ := (inside p).mp listed.inside
        exact ⟨other, old, t.neigh_reapNeigh_ne other ▸ listed.addr⟩
      · rintro ⟨other, old⟩
        exact ⟨(inside p).mpr ⟨other, old.inside⟩,
          (congrArg ObjNeigh.addr (t.neigh_reapNeigh_ne other)).trans old.addr⟩
  simp only [KnownLinks.hear, found, built, if_true]
  refine follows.setOne knows (fun l' => ?_) (fun l' away live => ?_)
    (shows.update (by rw [entry]) ⟨_, entry⟩ (fun addr' same lladdr' => ?_) fun lladdr' => ?_)
  · by_cases here : l' = l
    · subst here
      rw [entry]
      exact ⟨rfl, rfl⟩
    · rw [emptied.link l' here]
      exact ⟨rfl, rfl⟩
  · refine ⟨emptied.link l' away, fun p inside' => t.neigh_reapNeigh_ne fun same => away ?_⟩
    exact sound.own_link knows.live live listed.inside (same ▸ inside')
  · refine exists_congr fun p => ?_
    rw [lists, and_assoc]
    constructor
    · rintro ⟨other, old, rfl⟩
      exact ⟨old, by rw [t.neigh_reapNeigh_ne other]⟩
    · rintro ⟨old, rfl⟩
      have other : p ≠ n := fun eq => same (by rw [← old.addr, eq, listed.addr])
      exact ⟨other, old, by rw [t.neigh_reapNeigh_ne other]⟩
  · refine ⟨fun told => (nomatch told), ?_⟩
    rintro ⟨p, listed', -⟩
    obtain ⟨other, old⟩ := (lists _ _).mp listed'
    exact absurd (sound.lists_unique knows.live listed old) other

/-- A link becomes known. -/
theorem Follows.linkNew (follows : t.Follows known) (sound : t.Sound) {nlmsgType : UInt16}
    {m : LinkMsg} {linked : SearchTree LinkId} (new : nlmsgType ≠ rtmDellink)
    (absent : ∀ l, ¬ t.Knows m.ifindex l) :
    (t.newLink m linked).Follows (known.hear (.link nlmsgType m)) := by
  have here : (t.newLink m linked).link t.nextLink = _ := Function.update_self ..
  have other : ∀ l, l ≠ t.nextLink → (t.newLink m linked).link l = t.link l := fun l other =>
    Function.update_of_ne other ..
  simp only [KnownLinks.hear, follows.unknown absent, if_neg new]
  constructor
  · intro ifindex unknown l knows
    by_cases same : ifindex = m.ifindex
    · subst same
      rw [Function.update_self] at unknown
      cases unknown
    · rw [Function.update_of_ne same] at unknown
      have old : l ≠ t.nextLink := by
        rintro rfl
        refine same ?_
        rw [← knows.ifindex, here]
        rfl
      exact follows.absent unknown l ⟨other l old ▸ knows.live, other l old ▸ knows.ifindex⟩
  · intro ifindex link found
    by_cases same : ifindex = m.ifindex
    · subst same
      rw [Function.update_self] at found
      cases found
      refine ⟨t.nextLink, ⟨by rw [here]; rfl, by rw [here]; rfl⟩, by rw [here]; rfl, ?_,
        fun addr lladdr => ⟨fun told => (nomatch told), ?_⟩⟩
      · rw [here]
        simp [ObjLink.set]
      · rintro ⟨n, listed, -⟩
        have inside := listed.inside
        rw [here] at inside
        exact absurd inside List.not_mem_nil
    · rw [Function.update_of_ne same] at found
      obtain ⟨l, knows, shows⟩ := follows.present found
      have old := other l (Nat.ne_of_lt (sound.linkFresh l knows.live))
      have kept : SameLink t (t.newLink m linked) l := ⟨old, fun _ _ => rfl⟩
      exact ⟨l, ⟨old ▸ knows.live, old ▸ knows.ifindex⟩, kept.shows shows⟩

/-- A link is forgotten with its neighbours. -/
theorem Follows.linkGone (follows : t.Follows known) (sound : t.Sound) {m : LinkMsg}
    (knows : t.Knows m.ifindex l) (free : (t.link l).obj.refcnt = 0) :
    ((t.emptyLink l).freeLink l).Follows (known.hear (.link rtmDellink m)) := by
  obtain ⟨link, found, shows⟩ := follows.shows sound knows
  have unheld : link.held = false := by
    rw [Bool.eq_false_iff]
    exact fun held => shows.held.mp held free
  have emptied := sound.emptied knows.live
  have here : ((t.emptyLink l).freeLink l).link l = _ := link_setLink_same ..
  have other : ∀ l', l' ≠ l → ((t.emptyLink l).freeLink l).link l' = t.link l' := fun l' away =>
    (link_setLink_ne _ _ away).trans ((emptied.link l' away).trans (link_setLink_ne _ _ away))
  simp only [KnownLinks.hear, found, if_true, unheld, if_neg Bool.false_ne_true]
  constructor
  · intro ifindex unknown l' knows'
    have away : l' ≠ l := by
      rintro rfl
      have live := knows'.live
      rw [here] at live
      cases live
    have old : t.Knows ifindex l' :=
      ⟨other l' away ▸ knows'.live, other l' away ▸ knows'.ifindex⟩
    by_cases same : ifindex = m.ifindex
    · subst same
      exact away (sound.unique knows old)
    · rw [Function.update_of_ne same] at unknown
      exact follows.absent unknown l' old
  · intro ifindex link' found'
    by_cases same : ifindex = m.ifindex
    · subst same
      rw [Function.update_self] at found'
      cases found'
    · rw [Function.update_of_ne same] at found'
      obtain ⟨l', knows', shows'⟩ := follows.present found'
      have away : l' ≠ l := fun eq => same (by rw [← knows.ifindex, ← knows'.ifindex, eq])
      have old := other l' away
      have kept : SameLink t ((t.emptyLink l).freeLink l) l' := ⟨old, fun n inside =>
        emptied.neigh n fun inside' =>
          away (sound.own_link knows.live knows'.live inside' inside)⟩
      exact ⟨l', ⟨old ▸ knows'.live, old ▸ knows'.ifindex⟩, kept.shows shows'⟩

/-- Every message is followed. -/
theorem Follows.heard {message : Message} (follows : t.Follows known) (sound : t.Sound)
    (heard : Heard message t t') : t'.Follows (known.hear message) := by
  cases heard with
  | linkUnknown absent =>
    exact follows.same (by simp only [KnownLinks.hear, follows.unknown absent, if_true])
  | linkNew new absent _ => exact follows.linkNew sound new absent
  | linkKept knows held => exact follows.linkKept sound knows held
  | linkGone knows free => exact follows.linkGone sound knows free
  | linkSet new knows => exact follows.linkSet sound new knows
  | neighUnknown absent =>
    exact follows.same (by simp only [KnownLinks.hear, follows.unknown absent])
  | neighAbsent knows built absent => exact follows.neighAbsent sound knows built absent
  | neighNew new knows built absent done =>
    exact follows.neighNew sound new knows built absent done
  | neighGone knows built listed => exact follows.neighGone sound knows built listed
  | neighSet new knows built listed => exact follows.neighSet sound new knows built listed
  | routeUnknown absent =>
    exact follows.same (by simp only [KnownLinks.hear, follows.unknown absent])
  | routeKnown knows built listed =>
    obtain ⟨link, found, shows⟩ := follows.shows sound knows
    have told := (shows.neighs _ _).mpr ⟨_, listed, rfl⟩
    apply follows.same
    simp only [KnownLinks.hear, found, built, told, Option.isSome_some, if_true]
  | routeHeld knows built absent => exact follows.routeHeld sound knows built absent

end Messages

end Tables

section Events

variable {c : Calls}

theorem objRuleNetlink_writes (writing : Writing c) (nlmsgType : UInt16) (chainNo : UInt32)
    (prio : UInt16) (tcr : TcRule) (w : World) :
    Returns (Writes w) (objRuleNetlink c nlmsgType chainNo prio tcr w) := by
  rw [objRuleNetlink]
  split
  · have heard : Writes w (w.hears ⟨chainNo, prio, none⟩) :=
      writes_rest w.posTree w.lafTree w.chainTree w.queue w.kernel _ rfl rfl
    refine heard.step (returns_bind fun found _ => ?_)
    cases found with
    | none => exact .refl _
    | some r => exact returns_bind fun _ _ => objRuleDelete_writes writing r _
  · exact objRuleNotified_writes writing ⟨chainNo, prio, some tcr⟩ w

theorem objRuleStaticWant_writes (writing : Writing c) (chainNo : UInt32) (prio : UInt16)
    (tcr : TcRule) (w : World) :
    Returns (Writes w) (objRuleStaticWant c chainNo prio tcr w) := by
  refine returns_bind fun found _ => returns_require fun _ => ?_
  have noTarget : ({ chainNo, prio, type := .static, wantTcr := some tcr } : ObjRule).target =
      none := rfl
  refine (objRuleAlloc_writes noTarget w).step ?_
  exact Writes.bind (objRulePosInsert_writes _ _) fun w' => writing.updateState _ w'

theorem queueIsComplete_writes (writing : Writing c) (conn : Option ConnId) (w : World) :
    Returns (Writes w) (queueIsComplete c conn w) := by
  refine returns_bind fun result _ => ?_
  obtain ⟨_, queue⟩ := result
  have completed : Writes w { w with queue } :=
    writes_rest w.posTree w.lafTree w.chainTree queue w.kernel w.log rfl rfl
  refine completed.step ?_
  dsimp only
  split
  · exact writing.processLoop _
  · exact .refl _

theorem filterGotChain_writes (chainNo : UInt32) (w : World) :
    Returns (Writes w) (filterGotChain chainNo w) := by
  refine (filterGotChain_returns chainNo w).mono fun w' same => ?_
  obtain ⟨chainTree, rfl⟩ := same
  exact writes_rest w.posTree w.lafTree chainTree w.queue w.kernel w.log rfl rfl

theorem objRuleRemovePin_unmoved (writing : Writing c) (rounds : Nat) (w : World) :
    Unmoved w (objRuleRemovePin c rounds w) := by
  have pass : ∀ (rounds : Nat) (r : Option RuleId) (w : World),
      Unmoved w (objRuleRemovePinPass c rounds r w) := by
    intro rounds
    induction rounds with
    | zero =>
      intro r w
      cases r with
      | none => exact rfl
      | some r => trivial
    | succ rounds ih =>
      intro r w
      cases r with
      | none => exact rfl
      | some r =>
        refine Ends.bind (Returns.unmoved (writing.updateState r w)) fun w₁ first => ?_
        exact returns_bind fun next _ => (ih next w₁).mono fun _ later => later.trans first
  rw [objRuleRemovePin]
  split
  · exact rfl
  · exact ends_foldlM _ _ rfl fun pin _ w₁ same =>
      (pass rounds _ _).mono fun _ later => later.trans same

/-- The events of rules, chains, the queue and the kernel leave links, neighbours and routes
alone. -/
theorem ChainEvent.run_index {bound : Nat} {s s' : Owners} {e : ChainEvent}
    (ran : e.run bound s = .ok s') : s'.world.index = s.world.index := by
  have writing := calls_writing bound
  have writes : ∀ {result : Except Fault World} {loans : Multiset RuleId},
      Returns (Writes s.world) result →
      (do return { world := ← result, loans } : Except Fault Owners) = .ok s' →
      s'.world.index = s.world.index := fun {result loans} writes ran => by
    obtain ⟨world, returned, same⟩ := bind_returned ran
    cases same
    exact (writes.of_ok returned).index
  cases e with
  | gotChain chainNo => exact writes (filterGotChain_writes chainNo s.world) ran
  | rule e =>
    cases e with
    | staticWant chainNo prio tcr =>
      exact writes (objRuleStaticWant_writes writing chainNo prio tcr s.world) ran
    | request tcr =>
      obtain ⟨⟨r, world⟩, returned, same⟩ := bind_returned ran
      have requested := (objRuleRequest_writes writing tcr s.world).of_ok returned
      cases r <;> cases same <;> exact requested.index
    | uninstall r => exact writes (objRuleUninstall_writes writing r s.world) ran
    | ref r => exact writes (objRuleRef_writes r s.world) ran
    | unref r => exact writes (objRuleUnref_writes writing r s.world) ran
    | removePin =>
      obtain ⟨world, returned, same⟩ := bind_returned ran
      cases same
      exact (objRuleRemovePin_unmoved writing bound s.world).of_ok returned
    | message nlmsgType chainNo prio tcr =>
      exact writes (objRuleNetlink_writes writing nlmsgType chainNo prio tcr s.world) ran
    | completed => exact writes (queueIsComplete_writes writing _ s.world) ran
    | notified =>
      cases notes : s.world.kernel.notes with
      | nil =>
        simp only [run, RuleEvent.run, notes] at ran
        cases ran
        rfl
      | cons note rest =>
        simp only [run, RuleEvent.run, notes] at ran
        obtain ⟨world, returned, same⟩ := bind_returned ran
        cases same
        exact ((objRuleNotified_writes writing note _).of_ok returned).index
    | foreign note =>
      cases ran
      rfl
    | echoing echoes =>
      cases ran
      rfl

end Events

section Runs

/-- The index that a message is about. -/
def Message.ifindex : Message → Int
  | .link _ m => m.ifindex
  | .neigh _ ifindex _ _ _ => ifindex
  | .route _ oif _ _ _ => oif

/-- The kernel numbers its interfaces from 1 on, so the difference of two numbers is an `int`. -/
def Message.Indexed (message : Message) : Prop :=
  0 < message.ifindex ∧ message.ifindex < 2 ^ 31

instance (message : Message) : Decidable message.Indexed :=
  inferInstanceAs (Decidable (_ ∧ _))

/-- The monitor handles messages, among any events of rules, chains, the queue and the kernel. -/
inductive Monitored : Owners → List Message → Owners → Prop
  | start {s : Owners} : Monitored s [] s
  | event {s s' s'' : Owners} {messages : List Message} {e : ChainEvent} {bound : Nat} :
      Monitored s messages s' → e.run bound s' = .ok s'' → Monitored s messages s''
  | message {s s' : Owners} {messages : List Message} {message : Message} {depth : Nat}
      {world : World} : Monitored s messages s' → message.Indexed →
      handle depth message s'.world = .ok world →
      Monitored s (messages ++ [message]) { s' with world }

/-- No link, neighbour or route has been made yet, in normal operation. -/
structure World.Unlinked (w : World) : Prop where
  mode : w.mode = .normal
  links : w.links = {}
  neighs : w.neighs = {}
  routes : w.routes = {}
  linkTree : w.linkTree = .leaf
  routeTree : w.routeTree = .leaf
  linkCnt : w.linkCnt = 0
  routeCnt : w.routeCnt = 0

/-- What holds of the index between the events of a run. -/
structure World.Indexed (known : KnownLinks) (w : World) : Prop where
  mode : w.mode = .normal
  tables : w.tables.Sound
  routing : w.routing.Sound
  follows : w.tables.Follows known

theorem World.Unlinked.indexed {w : World} (unlinked : w.Unlinked) :
    w.Indexed fun _ => none := by
  have link : ∀ l, (w.tables.link l).obj.kind ≠ .link := fun l => by
    rw [show w.tables.link l = (w.links.cell l).entry from rfl, unlinked.links]
    simp only [ObjLink.entry, ne_eq]
    decide
  have neigh : ∀ n, (w.tables.neigh n).obj.kind ≠ .neigh := fun n => by
    rw [show w.tables.neigh n = (w.neighs.cell n).entry from rfl, unlinked.neighs]
    simp only [ObjNeigh.entry, ne_eq]
    decide
  have route : ∀ r, (w.routing.route r).1 ≠ .route := fun r => by
    rw [show w.routing.route r = (w.routes.cell r).entry from rfl, unlinked.routes]
    simp only [ObjRoute.entry, ne_eq]
    decide
  have linkTree : w.tables.linkTree.toList = [] := congrArg SearchTree.toList unlinked.linkTree
  have routeTree : w.routing.routeTree.toList = [] := congrArg SearchTree.toList unlinked.routeTree
  refine ⟨unlinked.mode, ?_, ?_, ?_⟩
  · refine ⟨fun l => ?_, ?_, fun l live => absurd live (link l), fun l live => absurd live (link l),
      ?_, fun l live => absurd live (link l), fun n live => absurd live (neigh n)⟩
    · simp [linkTree, link]
    · rw [linkTree]
      exact .nil
    · rw [linkTree]
      exact unlinked.linkCnt
  · refine ⟨fun r => ?_, ?_, fun r live => absurd live (route r), ?_⟩
    · simp [routeTree, route]
    · rw [routeTree]
      exact .nil
    · rw [routeTree]
      exact unlinked.routeCnt
  · exact ⟨fun _ l knows => link l knows.live, fun found => by cases found⟩

/-- A message. -/
theorem World.Indexed.message {known : KnownLinks} {w w' : World} {message : Message} {depth : Nat}
    (indexed : w.Indexed known) (ran : handle depth message w = .ok w') :
    w'.Indexed (known.hear message) := by
  obtain ⟨heard, step⟩ :=
    (handle_heard indexed.tables indexed.routing indexed.mode depth message).of_ok ran
  exact ⟨(heard.mode indexed.tables).trans indexed.mode, indexed.tables.heard heard,
    indexed.routing.step step, indexed.follows.heard indexed.tables heard⟩

/-- An event of the rest of the daemon. -/
theorem World.Indexed.event {known : KnownLinks} {s s' : Owners} {e : ChainEvent} {bound : Nat}
    (indexed : s.world.Indexed known) (ran : e.run bound s = .ok s') : s'.world.Indexed known := by
  have same := ChainEvent.run_index ran
  have tables : s'.world.tables = s.world.tables := congrArg Index.tables same
  have routing : s'.world.routing = s.world.routing := congrArg Index.routing same
  exact ⟨(congrArg Tables.mode tables).trans indexed.mode, tables ▸ indexed.tables,
    routing ▸ indexed.routing, tables ▸ indexed.follows⟩

/-- A run. -/
theorem Monitored.indexed {known : KnownLinks} {s s' : Owners} {messages : List Message}
    (run : Monitored s messages s') (indexed : s.world.Indexed known) :
    s'.world.Indexed (messages.foldl KnownLinks.hear known) := by
  induction run with
  | start => exact indexed
  | event _ ran ih => exact ih.event ran
  | message _ _ ran ih =>
    rw [List.foldl_append]
    exact ih.message ran

/-- What the messages of a run told. -/
def told (messages : List Message) : KnownLinks := messages.foldl KnownLinks.hear fun _ => none

/-- The daemon's lookups answer what was told of an index. -/
def World.Answers (w : World) (ifindex : Int) : Option KnownLink → Prop
  | none => objLinkLookup ifindex w = .ok none
  | some known => ∃ l link, objLinkLookup ifindex w = .ok (some l) ∧ w.link l = .ok link ∧
      link.ifindex = ifindex ∧ link.set known.msg = link ∧
      (known.held = true ↔ link.obj.refcnt ≠ 0) ∧
      ∀ addr, ∃ found, objNeighFdbLookup l addr w = .ok found ∧
        found.map (fun n => (w.neighs.cell n).lladdr) = known.neighs addr

/-- The fields that a message carries do not depend on weak references. -/
theorem ObjLink.set_of_entry {link : ObjLink} {m : LinkMsg} (msg : link.entry = link.entry.set m) :
    link.set m = link := by
  obtain ⟨obj, ifindex, lowerIfindex, vlanId, mtu, lladdr, ifname, fdb⟩ := link
  simp only [entry, set, mk.injEq] at msg ⊢
  obtain ⟨-, -, lower, vlan, mtu, lladdr, ifname, -⟩ := msg
  exact ⟨trivial, trivial, lower.symm, vlan.symm, mtu.symm, lladdr.symm, ifname.symm, trivial⟩

/-- In every run, what the daemon finds of an interface and of the neighbours on it is computed
from the messages alone: the fields of the last message about the interface and the addresses of
the last ones about its neighbours. An interface that is deleted is forgotten with its neighbours,
unless a route went through a gateway on it that was no neighbour then. -/
theorem lookups_follow_messages {w : World} (unlinked : w.Unlinked) {messages : List Message}
    {s : Owners} (run : Monitored { world := w } messages s) (ifindex : Int) :
    s.world.Answers ifindex (told messages ifindex) := by
  have indexed := run.indexed unlinked.indexed
  obtain ⟨found, search, finds⟩ := objLinkLookup_finds indexed.tables ifindex
  cases known : told messages ifindex with
  | none =>
    cases found with
    | none => exact search
    | some l => exact absurd ((finds l).mp rfl) (indexed.follows.absent known l)
  | some link =>
    obtain ⟨l, knows, shows⟩ := indexed.follows.present known
    have followed : s.world.link l = .ok (s.world.links.cell l) := if_pos knows.live
    refine ⟨l, s.world.links.cell l, ?_, followed, knows.ifindex, ?_, shows.held, fun addr => ?_⟩
    · rw [search, (finds l).mpr knows]
    · exact ObjLink.set_of_entry shows.msg
    · obtain ⟨found, search, finds⟩ := objNeighFdbLookup_finds indexed.tables knows.live addr
      refine ⟨found, search, ?_⟩
      cases found with
      | none =>
        refine (shows.neighs_none fun n listed => ?_).symm
        cases (finds n).mpr listed
      | some n => exact ((shows.neighs addr _).mpr ⟨n, (finds n).mp rfl, rfl⟩).symm

/-- Messages one after the other, as far as each of them is handled. -/
def Owners.monitor (depth : Nat) (messages : List Message) (s : Owners) : Except Fault Owners :=
  messages.foldlM (fun s message => do
    return { s with world := ← handle depth message s.world }) s

/-- Messages that were handled are a run. -/
theorem Owners.monitor_run {depth : Nat} {messages : List Message} {s s' : Owners}
    (indexed : ∀ message ∈ messages, message.Indexed) (ran : s.monitor depth messages = .ok s') :
    Monitored s messages s' := by
  suffices general : ∀ before start, Monitored s before start →
      start.monitor depth messages = .ok s' → Monitored s (before ++ messages) s' from
    general [] s .start ran
  clear ran
  induction messages with
  | nil =>
    intro before start run ran
    cases ran
    rwa [List.append_nil]
  | cons message messages ih =>
    intro before start run ran
    obtain ⟨next, handled, ran⟩ := bind_returned ran
    obtain ⟨world, returned, same⟩ := bind_returned handled
    cases same
    have first := run.message (indexed message List.mem_cons_self) returned
    have rest := ih (fun other inside => indexed other (List.mem_cons_of_mem _ inside)) _ _
      first ran
    rwa [List.append_assoc] at rest

/-- An interface with a neighbour, a route through another gateway on it, and its deletion. -/
def heldInterface : List Message :=
  let eth7 : LinkMsg := {
    ifindex := 7
    lladdr := some 2
    lowerIfindex := 1
    vlanId := 100
    mtu := 1500
    ifname := some "vlan100" }
  [.link rtmNewlink eth7,
    .neigh rtmNewneigh 7 afInet (some (0x0a000001 <<< 96)) (some 5),
    .route rtmNewroute 7 afInet (some (0x0a000002 <<< 96)) ⟨afInet, 24, 0x0a010000 <<< 96, 0⟩,
    .link rtmDellink eth7]

/-- The interface is still found after its deletion. -/
theorem lookups_follow_messages_held : ∃ s,
    Owners.monitor 9 heldInterface { world := blankWorld } = .ok s ∧
      s.world.Answers 7 (told heldInterface 7) ∧ (told heldInterface 7).map KnownLink.held =
        some true := by
  have unlinked : blankWorld.Unlinked := ⟨rfl, rfl, rfl, rfl, rfl, rfl, rfl, rfl⟩
  obtain ⟨s, ran⟩ : ∃ s, Owners.monitor 9 heldInterface { world := blankWorld } = .ok s := ⟨_, rfl⟩
  have run := Owners.monitor_run (by decide) ran
  exact ⟨s, ran, lookups_follow_messages unlinked run 7, rfl⟩

/-- A tree holds the live objects of a kind, once, and a counter counts them. -/
structure CountedTree (tree : SearchTree Nat) (live : Nat → Prop) (cnt : Nat) : Prop where
  nodup : tree.toList.Nodup
  live : ∀ i, i ∈ tree.toList ↔ live i
  cnt : cnt = tree.toList.length

/-- In every run the trees of links and of routes hold exactly the live ones, so that no search
follows a pointer to a freed one, a lookup finds exactly the live object of its key, and
`obj_link_count` and `obj_route_count` count the live objects. -/
theorem objects_indexed {w : World} (unlinked : w.Unlinked) {messages : List Message} {s : Owners}
    (run : Monitored { world := w } messages s) :
    (CountedTree s.world.linkTree (fun l => (s.world.links.cell l).obj.kind = .link)
        s.world.linkCnt ∧
      ∀ ifindex, ∃ found, objLinkLookup ifindex s.world = .ok found ∧ ∀ l, found = some l ↔
        (s.world.links.cell l).obj.kind = .link ∧ (s.world.links.cell l).ifindex = ifindex) ∧
    (CountedTree s.world.routeTree (fun r => (s.world.routes.cell r).obj.kind = .route)
        s.world.routeCnt ∧
      ∀ dst, ∃ found, objRouteLookup dst s.world = .ok found ∧ ∀ r, found = some r ↔
        (s.world.routes.cell r).obj.kind = .route ∧ (s.world.routes.cell r).dst = dst) := by
  have indexed := run.indexed unlinked.indexed
  refine ⟨⟨⟨nodup_of_order indexed.tables.linkOrder, indexed.tables.links, indexed.tables.linkCnt⟩,
    fun ifindex => ?_⟩, ⟨nodup_of_order indexed.routing.routeOrder, indexed.routing.routes,
    indexed.routing.routeCnt⟩, fun dst => ?_⟩
  · obtain ⟨found, search, finds⟩ := objLinkLookup_finds indexed.tables ifindex
    refine ⟨found, search, fun l => (finds l).trans ?_⟩
    exact ⟨fun knows => ⟨knows.live, knows.ifindex⟩, fun ⟨live, same⟩ => ⟨live, same⟩⟩
  · obtain ⟨found, search, finds⟩ := objRouteLookup_finds indexed.routing dst
    exact ⟨found, search, fun r => (finds r).trans Prod.ext_iff⟩

/-- After the messages about the held interface its route is counted. -/
theorem objects_indexed_held : ∃ s,
    Owners.monitor 9 heldInterface { world := blankWorld } = .ok s ∧ s.world.routeCnt = 1 ∧
      CountedTree s.world.routeTree (fun r => (s.world.routes.cell r).obj.kind = .route) 1 := by
  have unlinked : blankWorld.Unlinked := ⟨rfl, rfl, rfl, rfl, rfl, rfl, rfl, rfl⟩
  obtain ⟨s, ran, one⟩ : ∃ s, Owners.monitor 9 heldInterface { world := blankWorld } = .ok s ∧
      s.world.routeCnt = 1 := ⟨_, rfl, rfl⟩
  have run := Owners.monitor_run (by decide) ran
  exact ⟨s, ran, one, one ▸ (objects_indexed unlinked run).2.1⟩

/-- A neighbour that is in no table and has no address, on a link that it keeps. -/
structure Tables.Loose (t : Tables) (l : LinkId) (n : NeighId) : Prop where
  neigh : (t.neigh n).obj.kind = .neigh
  link : (t.neigh n).link = some l
  lladdr : (t.neigh n).lladdr = 0
  live : (t.link l).obj.kind = .link
  held : (t.link l).obj.refcnt ≠ 0
  out : ∀ l', (t.link l').obj.kind = .link → n ∉ (t.link l').fdb.toList

namespace Tables

variable {t t' : Tables} {l : LinkId} {n : NeighId}

/-- A write to another neighbour and to the table of its link. -/
theorem Loose.keep (loose : t.Loose l n) (neigh : t'.neigh n = t.neigh n)
    (link : (t'.link l).obj.kind = .link ∧ (t'.link l).obj.refcnt ≠ 0)
    (out : ∀ l', (t'.link l').obj.kind = .link → n ∉ (t'.link l').fdb.toList) : t'.Loose l n :=
  ⟨neigh ▸ loose.neigh, neigh ▸ loose.link, neigh ▸ loose.lladdr, link.1, link.2, out⟩

/-- A write to a link that keeps its table. -/
theorem Loose.setLink (loose : t.Loose l n) {l' : LinkId} {link : ObjLink}
    (kind : link.obj.kind = (t.link l').obj.kind) (fdb : link.fdb = (t.link l').fdb)
    (held : (t.link l').obj.refcnt ≠ 0 → link.obj.refcnt ≠ 0) : (t.setLink l' link).Loose l n := by
  refine loose.keep rfl ?_ fun k live => ?_
  · by_cases here : l = l'
    · subst here
      rw [link_setLink_same]
      exact ⟨kind.trans loose.live, held loose.held⟩
    · rw [link_setLink_ne _ _ here]
      exact ⟨loose.live, loose.held⟩
  · by_cases here : k = l'
    · subst here
      rw [link_setLink_same] at live ⊢
      rw [fdb]
      exact loose.out k (kind ▸ live)
    · rw [link_setLink_ne _ _ here] at live ⊢
      exact loose.out k live

/-- Another new neighbour. -/
theorem Loose.addNeigh (loose : t.Loose l n) (sound : t.Sound) (neigh : ObjNeigh) :
    (t.addNeigh neigh).Loose l n :=
  loose.keep (neigh_setNeigh_ne _ _ (Nat.ne_of_lt (sound.neighFresh n loose.neigh)))
    ⟨loose.live, loose.held⟩ loose.out

/-- A new link. -/
theorem Loose.newLink (loose : t.Loose l n) (sound : t.Sound) (m : LinkMsg)
    (linked : SearchTree LinkId) : (t.newLink m linked).Loose l n := by
  have other : ∀ k, k ≠ t.nextLink → (t.newLink m linked).link k = t.link k := fun k other =>
    Function.update_of_ne other ..
  have old := other l (Nat.ne_of_lt (sound.linkFresh l loose.live))
  refine loose.keep rfl (by rw [old]; exact ⟨loose.live, loose.held⟩) fun k live => ?_
  by_cases here : k = t.nextLink
  · subst here
    rw [show (t.newLink m linked).link t.nextLink = _ from Function.update_self ..]
    exact List.not_mem_nil
  · rw [other k here] at live ⊢
    exact loose.out k live

/-- A link is reaped that nothing holds. -/
theorem Loose.linkGone (loose : t.Loose l n) (sound : t.Sound) {l' : LinkId}
    (live : (t.link l').obj.kind = .link) (free : (t.link l').obj.refcnt = 0) :
    ((t.emptyLink l').freeLink l').Loose l n := by
  have emptied := sound.emptied live
  have other : ∀ k, k ≠ l' → ((t.emptyLink l').freeLink l').link k = t.link k := fun k away =>
    (link_setLink_ne _ _ away).trans ((emptied.link k away).trans (link_setLink_ne _ _ away))
  have old := other l fun same => loose.held (same ▸ free)
  refine loose.keep (emptied.neigh n (loose.out l' live))
    (by rw [old]; exact ⟨loose.live, loose.held⟩) fun k live' => ?_
  have away : k ≠ l' := by
    rintro rfl
    rw [show ((t.emptyLink k).freeLink k).link k = _ from link_setLink_same ..] at live'
    cases live'
  rw [other k away] at live' ⊢
  exact loose.out k live'

/-- Another neighbour enters a table. -/
theorem Loose.newNeigh (loose : t.Loose l n) (sound : t.Sound) {l' : LinkId} {addr : AfAddr}
    {lladdr : Lladdr} {linked : SearchTree NeighId} (live : (t.link l').obj.kind = .link)
    (done : (t.link l').fdb.link (t.neighCompare addr) t.nextNeigh = .ok (some linked)) :
    (t.newNeigh l' addr lladdr linked).Loose l n := by
  have old : n ≠ t.nextNeigh := Nat.ne_of_lt (sound.neighFresh n loose.neigh)
  refine loose.keep (neigh_setNeigh_ne _ _ old) ?_ fun k live' => ?_
  · by_cases here : l = l'
    · subst here
      rw [Tables.newNeigh, link_setLink_same]
      exact ⟨loose.live, loose.held⟩
    · rw [Tables.newNeigh, link_setLink_ne _ _ here]
      exact ⟨loose.live, loose.held⟩
  · by_cases here : k = l'
    · subst here
      rw [Tables.newNeigh, link_setLink_same]
      rw [SearchTree.Balancing.insertColor_toList, SearchTree.mem_link done]
      rintro (same | inside)
      · exact old same
      · exact loose.out k live inside
    · rw [Tables.newNeigh, link_setLink_ne _ _ here] at live' ⊢
      exact loose.out k live'

/-- Another neighbour is reaped. -/
theorem Loose.reapNeigh (loose : t.Loose l n) (sound : t.Sound) {l' : LinkId} {p : NeighId}
    (live : (t.link l').obj.kind = .link) (inside : p ∈ (t.link l').fdb.toList) :
    (t.reapNeigh p).Loose l n := by
  have own := ((sound.tables l' live).own p inside).2
  have emptied := t.emptied_reapNeigh own
  have other : n ≠ p := fun same => loose.out l' live (same ▸ inside)
  have entry := t.link_reapNeigh own
  refine loose.keep (t.neigh_reapNeigh_ne other) ?_ fun k live' => ?_
  · by_cases here : l = l'
    · subst here
      rw [entry]
      exact ⟨loose.live, loose.held⟩
    · rw [emptied.link l here]
      exact ⟨loose.live, loose.held⟩
  · by_cases here : k = l'
    · subst here
      rw [entry, SearchTree.Balancing.erase_toList]
      exact fun inside => loose.out k live (List.mem_of_mem_erase inside)
    · rw [emptied.link k here] at live' ⊢
      exact loose.out k live'

/-- Every message leaves it so. -/
theorem Loose.heard {message : Message} (loose : t.Loose l n) (sound : t.Sound)
    (heard : Heard message t t') : t'.Loose l n := by
  cases heard with
  | linkUnknown | neighUnknown | neighAbsent | routeUnknown | routeKnown => exact loose
  | linkNew => exact loose.newLink sound _ _
  | linkKept => exact loose.setLink rfl rfl id
  | linkGone knows free => exact loose.linkGone sound knows.live free
  | linkSet => exact loose.setLink rfl rfl id
  | neighNew _ knows _ _ done => exact loose.newNeigh sound knows.live done
  | neighGone knows _ listed => exact loose.reapNeigh sound knows.live listed.inside
  | neighSet new knows built listed =>
    refine loose.keep (neigh_setNeigh_ne _ _ fun same => ?_) ⟨loose.live, loose.held⟩ loose.out
    exact loose.out _ knows.live (same ▸ listed.inside)
  | routeHeld => exact (loose.addNeigh sound _).setLink rfl rfl fun _ => Nat.succ_ne_zero _

/-- The neighbour that a route's message makes. -/
theorem loose_getNeigh (sound : t.Sound) (live : (t.link l).obj.kind = .link) (addr : AfAddr) :
    (t.getNeigh l addr).Loose l t.nextNeigh := by
  have neigh : (t.getNeigh l addr).neigh t.nextNeigh = _ := neigh_setNeigh_same ..
  have link : (t.getNeigh l addr).link l = _ := link_setLink_same ..
  refine ⟨by rw [neigh], by rw [neigh], by rw [neigh], by rw [link]; exact live,
    by rw [link]; exact Nat.succ_ne_zero _, fun k live' => ?_⟩
  by_cases here : k = l
  · subst here
    rw [link]
    exact sound.next_loose live
  · rw [Tables.getNeigh, link_setLink_ne _ _ here] at live' ⊢
    exact sound.next_loose live'

/-- The message of a route whose gateway is in no table. -/
theorem Heard.loose {nlmsgType : UInt16} {oif : Int} {af : UInt8} {nh : Option SomeInAddr}
    {dst afAddr : AfAddr} (heard : Heard (.route nlmsgType oif af nh dst) t t') (sound : t.Sound)
    (knows : t.Knows oif l) (built : buildAfAddr af nh 0 = .ok afAddr)
    (absent : ∀ n, ¬ t.Lists l afAddr n) : t'.Loose l t.nextNeigh := by
  cases heard with
  | routeUnknown unknown => exact absurd knows (unknown l)
  | routeKnown knows' built' listed =>
    rw [built] at built'
    cases built'
    rw [sound.unique knows knows'] at listed
    exact absurd listed (absent _)
  | routeHeld knows' _ _ =>
    rw [sound.unique knows knows']
    exact loose_getNeigh sound knows.live _

end Tables

/-- A whole run leaves it so. -/
theorem Monitored.loose {known : KnownLinks} {s s' : Owners} {messages : List Message} {l : LinkId}
    {n : NeighId} (run : Monitored s messages s') (indexed : s.world.Indexed known)
    (loose : s.world.tables.Loose l n) : s'.world.tables.Loose l n := by
  induction run with
  | start => exact loose
  | @event s' s'' _ _ _ _ ran ih =>
    have same : s''.world.tables = s'.world.tables :=
      congrArg Index.tables (ChainEvent.run_index ran)
    rw [same]
    exact ih
  | @message s' messages message depth world before _ ran ih =>
    have now := before.indexed indexed
    exact ih.heard now.tables ((handle_heard now.tables now.routing now.mode depth message).of_ok
      ran).1

/-- Where a route's message names a gateway that is not in the table of its interface, the
neighbour that it makes is found by no later lookup, and in every later state of the run, whatever
messages tell of the gateway's address, a target through it has no rule to install. -/
theorem route_neighbours_stay_unresolved {w : World} (unlinked : w.Unlinked)
    {messages more : List Message} {s s' : Owners} {nlmsgType : UInt16} {oif : Int} {af : UInt8}
    {nh : Option SomeInAddr} {dst afAddr : AfAddr} {l : LinkId} {depth : Nat} {world : World}
    (run : Monitored { world := w } messages s)
    (link : objLinkLookup oif s.world = .ok (some l)) (built : buildAfAddr af nh 0 = .ok afAddr)
    (absent : objNeighFdbLookup l afAddr s.world = .ok none)
    (ran : handle depth (.route nlmsgType oif af nh dst) s.world = .ok world)
    (later : Monitored { s with world } more s') :
    (∀ l' addr, objNeighFdbLookup l' addr s'.world ≠ .ok (some s.world.neighs.next)) ∧
      ∀ t target, s'.world.target t = .ok target →
        target.nexthop.head? = some s.world.neighs.next →
        objTargetPrepareRule t s'.world = .ok none := by
  have indexed := run.indexed unlinked.indexed
  obtain ⟨found, search, finds⟩ := objLinkLookup_finds indexed.tables oif
  rw [link] at search
  cases search
  have knows := (finds l).mp rfl
  obtain ⟨found, search, finds⟩ := objNeighFdbLookup_finds indexed.tables knows.live afAddr
  rw [absent] at search
  cases search
  have none : ∀ n, ¬ s.world.tables.Lists l afAddr n := fun n listed => by
    cases (finds n).mpr listed
  have heard := ((handle_heard indexed.tables indexed.routing indexed.mode depth _).of_ok ran).1
  have loose := later.loose (indexed.message ran)
    (heard.loose indexed.tables knows built none)
  have later := later.indexed (indexed.message ran)
  refine ⟨fun l' addr found => ?_, fun t target followed through => ?_⟩
  · obtain ⟨link, followed, -⟩ := bind_returned found
    have live : (s'.world.tables.link l').obj.kind = .link := (link_ok followed).1
    obtain ⟨other, search, finds⟩ := objNeighFdbLookup_finds later.tables live addr
    rw [found] at search
    cases search
    exact loose.out l' live ((finds _).mp rfl).inside
  · have neigh : s'.world.neigh s.world.neighs.next = .ok (s'.world.neighs.cell _) :=
      if_pos loose.neigh
    have live : s'.world.link l = .ok (s'.world.links.cell l) := if_pos loose.live
    have own : (s'.world.neighs.cell s.world.neighs.next).link = some l := loose.link
    have lladdr : (s'.world.neighs.cell s.world.neighs.next).lladdr = 0 := loose.lladdr
    rw [objTargetPrepareRule, followed, ok_bind]
    simp only [through]
    rw [neigh, ok_bind]
    simp only [own]
    rw [live, ok_bind, if_pos (.inr (.inr lladdr))]
    rfl

/-- Once the gateway of the held interface has an address, its target still has no rule. -/
theorem route_neighbours_stay_unresolved_late : ∃ s world s',
    Owners.monitor 9 (heldInterface.take 2) { world := blankWorld } = .ok s ∧
      handle 9 (.route rtmNewroute 7 afInet (some (0x0a000002 <<< 96))
        ⟨afInet, 24, 0x0a010000 <<< 96, 0⟩) s.world = .ok world ∧
      Owners.monitor 9 [.neigh rtmNewneigh 7 afInet (some (0x0a000002 <<< 96)) (some 6)]
        { s with world } = .ok s' ∧
      objNeighFdbLookup 0 ⟨afInet, 0, 0x0a000002 <<< 96, 0⟩ s'.world = .ok (some 2) ∧
      objTargetPrepareRule 0 s'.world = .ok none := by
  have unlinked : blankWorld.Unlinked := ⟨rfl, rfl, rfl, rfl, rfl, rfl, rfl, rfl⟩
  obtain ⟨s, world, s', target, before, handled, after, link, absent, found, followed, through⟩ :
      ∃ s world s' target,
        Owners.monitor 9 (heldInterface.take 2) { world := blankWorld } = .ok s ∧
        handle 9 (.route rtmNewroute 7 afInet (some (0x0a000002 <<< 96))
          ⟨afInet, 24, 0x0a010000 <<< 96, 0⟩) s.world = .ok world ∧
        Owners.monitor 9 [.neigh rtmNewneigh 7 afInet (some (0x0a000002 <<< 96)) (some 6)]
          { s with world } = .ok s' ∧
        objLinkLookup 7 s.world = .ok (some 0) ∧
        objNeighFdbLookup 0 ⟨afInet, 0, 0x0a000002 <<< 96, 0⟩ s.world = .ok none ∧
        objNeighFdbLookup 0 ⟨afInet, 0, 0x0a000002 <<< 96, 0⟩ s'.world = .ok (some 2) ∧
        s'.world.target 0 = .ok target ∧ target.nexthop.head? = some s.world.neighs.next :=
    ⟨_, _, _, _, rfl, rfl, rfl, by decide +kernel, by decide +kernel, by decide +kernel, rfl, rfl⟩
  have run := Owners.monitor_run (by decide) before
  have later := Owners.monitor_run (by decide) after
  exact ⟨s, world, s', before, handled, after, found, (route_neighbours_stay_unresolved unlinked
    run link (by decide) absent handled later).2 0 target followed through⟩

end Runs

end FlowerRoute
