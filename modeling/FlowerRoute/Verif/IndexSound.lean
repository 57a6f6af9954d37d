import FlowerRoute.Verif.ObjectTables

/-!
# Trees and tables in order

The trees of links and of routes hold exactly the live ones, in the order of their keys, and the
table of a link holds neighbours of that link in the order of their addresses. So a search finds
what there is to find, and each change that the daemon makes keeps this.
-/

namespace FlowerRoute

open Outcome

/-- The table of a link holds neighbours of it that are installed, in the order of their
addresses. -/
structure Tabled (neigh : NeighId → ObjNeigh) (l : LinkId) (fdb : SearchTree NeighId) : Prop where
  own : ∀ n ∈ fdb.toList,
    (neigh n).obj = { kind := .neigh, state := .installed } ∧ (neigh n).link = some l
  order : fdb.toList.Pairwise fun n n' => ((neigh n).addr.word : Int) < (neigh n').addr.word

/-- Items in the strict order of a key are distinct. -/
theorem nodup_of_order {α : Type} {key : α → Int} {items : List α}
    (order : items.Pairwise fun a b => key a < key b) : items.Nodup :=
  order.imp fun less same => by
    rw [same] at less
    exact absurd less (Int.lt_irrefl _)

namespace Tabled

variable {neigh neigh' : NeighId → ObjNeigh} {l : LinkId} {fdb tree linked : SearchTree NeighId}

/-- Where the neighbours of the table keep their place. -/
theorem congr (tabled : Tabled neigh l fdb) (same : ∀ n ∈ fdb.toList, (neigh n).link = some l →
    (neigh' n).obj = (neigh n).obj ∧ (neigh' n).link = (neigh n).link ∧
      (neigh' n).addr = (neigh n).addr) : Tabled neigh' l fdb where
  own n inside := by
    obtain ⟨obj, link⟩ := tabled.own n inside
    obtain ⟨obj', link', -⟩ := same n inside link
    exact ⟨obj'.trans obj, link'.trans link⟩
  order := tabled.order.imp_of_mem fun {n n'} inside inside' less => by
    rw [(same n inside (tabled.own n inside).2).2.2,
      (same n' inside' (tabled.own n' inside').2).2.2]
    exact less

/-- Without one of the neighbours. -/
theorem erase (tabled : Tabled neigh l fdb) {n : NeighId}
    (same : tree.toList = fdb.toList.erase n) : Tabled neigh l tree where
  own p inside := tabled.own p (List.mem_of_mem_erase (same ▸ inside))
  order := by
    rw [same]
    exact tabled.order.sublist List.erase_sublist

/-- With a new one. -/
theorem link (tabled : Tabled neigh l fdb) {compare : NeighId → Except Fault Int} {new : NeighId}
    (done : fdb.link compare new = .ok (some linked)) (same : tree.toList = linked.toList)
    (own : (neigh new).obj = { kind := .neigh, state := .installed } ∧ (neigh new).link = some l)
    (compares : ∀ n ∈ fdb.toList, ∀ sign, compare n = .ok sign →
      sign = (neigh new).addr.word - (neigh n).addr.word) : Tabled neigh l tree where
  own n inside := by
    rw [same, SearchTree.mem_link done] at inside
    rcases inside with rfl | old
    · exact own
    · exact tabled.own n old
  order := by
    rw [same]
    exact SearchTree.pairwise_link_key done tabled.order (fun _ _ => rfl) compares

end Tabled

namespace Tables

/-- The trees hold what they are for, once and in order. -/
structure Sound (t : Tables) : Prop where
  links : ∀ l, l ∈ t.linkTree.toList ↔ (t.link l).obj.kind = .link
  linkOrder : t.linkTree.toList.Pairwise fun l l' => (t.link l).ifindex < (t.link l').ifindex
  linkFresh : ∀ l, (t.link l).obj.kind = .link → l < t.nextLink
  linkState : ∀ l, (t.link l).obj.kind = .link → (t.link l).obj.state ≠ .zombie
  linkCnt : t.linkCnt = t.linkTree.toList.length
  tables : ∀ l, (t.link l).obj.kind = .link → Tabled t.neigh l (t.link l).fdb
  neighFresh : ∀ n, (t.neigh n).obj.kind = .neigh → n < t.nextNeigh

/-- A live link of an index. -/
structure Knows (t : Tables) (ifindex : Int) (l : LinkId) : Prop where
  live : (t.link l).obj.kind = .link
  ifindex : (t.link l).ifindex = ifindex

/-- A neighbour of an address in the table of a link. -/
structure Lists (t : Tables) (l : LinkId) (addr : AfAddr) (n : NeighId) : Prop where
  inside : n ∈ (t.link l).fdb.toList
  addr : (t.neigh n).addr = addr

namespace Sound

variable {t t' : Tables}

/-- A search finds exactly the live link of an index. -/
theorem find_link (sound : t.Sound) (ifindex : Int) :
    ∃ found, t.linkTree.find (t.linkCompare ifindex) = .ok found ∧
      ∀ l, found = some l ↔ t.Knows ifindex l := by
  obtain ⟨found, search, finds⟩ := SearchTree.find_key sound.linkOrder fun l inside =>
    if_pos ((sound.links l).mp inside)
  refine ⟨found, search, fun l => (finds l).trans ?_⟩
  rw [sound.links]
  exact ⟨fun ⟨live, same⟩ => ⟨live, same⟩, fun known => ⟨known.live, known.ifindex⟩⟩

/-- A search finds exactly the neighbour of an address in the table of a link. -/
theorem find_neigh (sound : t.Sound) {l : LinkId} (live : (t.link l).obj.kind = .link)
    (addr : AfAddr) : ∃ found, (t.link l).fdb.find (t.neighCompare addr) = .ok found ∧
      ∀ n, found = some n ↔ t.Lists l addr n := by
  have table := sound.tables l live
  have compares : ∀ n ∈ (t.link l).fdb.toList,
      t.neighCompare addr n = .ok ((addr.word : Int) - (t.neigh n).addr.word) := fun n inside =>
    if_pos (by rw [(table.own n inside).1])
  obtain ⟨found, search, finds⟩ := SearchTree.find_key table.order compares
  refine ⟨found, search, fun n => (finds n).trans ⟨fun ⟨inside, same⟩ => ⟨inside, ?_⟩,
    fun listed => ⟨listed.inside, by rw [listed.addr]⟩⟩⟩
  exact AfAddr.memcmp_eq_zero.mp (by rw [AfAddr.memcmp, same, Int.sub_self])

/-- Links keep their place in the tree while their tables change. -/
theorem change (sound : t.Sound) (tree : t'.linkTree = t.linkTree) (cnt : t'.linkCnt = t.linkCnt)
    (next : t'.nextLink = t.nextLink)
    (link : ∀ l, (t'.link l).obj.kind = (t.link l).obj.kind ∧
      (t'.link l).ifindex = (t.link l).ifindex)
    (state : ∀ l, (t'.link l).obj.kind = .link → (t'.link l).obj.state ≠ .zombie)
    (tables : ∀ l, (t'.link l).obj.kind = .link → Tabled t'.neigh l (t'.link l).fdb)
    (fresh : ∀ n, (t'.neigh n).obj.kind = .neigh → n < t'.nextNeigh) : t'.Sound where
  links l := by rw [tree, (link l).1, sound.links]
  linkOrder := by
    rw [tree]
    exact sound.linkOrder.imp fun {l l'} less => by rwa [(link l).2, (link l').2]
  linkFresh l live := by
    rw [next]
    exact sound.linkFresh l ((link l).1 ▸ live)
  linkState := state
  linkCnt := by rw [cnt, tree, sound.linkCnt]
  tables := tables
  neighFresh := fresh

/-- A link keeps its place and its table. -/
theorem setLink (sound : t.Sound) {l : LinkId} {link : ObjLink}
    (kind : link.obj.kind = (t.link l).obj.kind) (ifindex : link.ifindex = (t.link l).ifindex)
    (alive : link.obj.state ≠ .zombie) (fdb : link.fdb = (t.link l).fdb) :
    (t.setLink l link).Sound := by
  refine sound.change rfl rfl rfl (fun l' => ?_) (fun l' live => ?_) (fun l' live => ?_)
    sound.neighFresh
  · by_cases here : l' = l
    · subst here
      rw [link_setLink_same]
      exact ⟨kind, ifindex⟩
    · rw [link_setLink_ne _ _ here]
      exact ⟨rfl, rfl⟩
  · by_cases here : l' = l
    · subst here
      rwa [link_setLink_same]
    · rw [link_setLink_ne _ _ here] at live ⊢
      exact sound.linkState l' live
  · by_cases here : l' = l
    · subst here
      rw [link_setLink_same] at live ⊢
      rw [fdb]
      exact sound.tables l' (kind ▸ live)
    · rw [link_setLink_ne _ _ here] at live ⊢
      exact sound.tables l' live

/-- The table of a link changes. -/
theorem setTable (sound : t.Sound) {l : LinkId} {fdb : SearchTree NeighId}
    (table : (t.link l).obj.kind = .link → Tabled t.neigh l fdb) :
    (t.setLink l { t.link l with fdb }).Sound := by
  refine sound.change rfl rfl rfl (fun l' => ?_) (fun l' live => ?_) (fun l' live => ?_)
    sound.neighFresh
  · by_cases here : l' = l
    · subst here
      rw [link_setLink_same]
      exact ⟨rfl, rfl⟩
    · rw [link_setLink_ne _ _ here]
      exact ⟨rfl, rfl⟩
  · by_cases here : l' = l
    · subst here
      rw [link_setLink_same] at live ⊢
      exact sound.linkState l' live
    · rw [link_setLink_ne _ _ here] at live ⊢
      exact sound.linkState l' live
  · by_cases here : l' = l
    · subst here
      rw [link_setLink_same] at live ⊢
      exact table live
    · rw [link_setLink_ne _ _ here] at live ⊢
      exact sound.tables l' live

/-- A neighbour changes where the tables allow it. -/
theorem setNeigh (sound : t.Sound) {n : NeighId} {neigh : ObjNeigh}
    (old : neigh.obj.kind = .neigh → n < t.nextNeigh)
    (tables : ∀ l, (t.link l).obj.kind = .link →
      Tabled (t.setNeigh n neigh).neigh l (t.link l).fdb) : (t.setNeigh n neigh).Sound := by
  refine sound.change rfl rfl rfl (fun _ => ⟨rfl, rfl⟩) sound.linkState tables fun p live => ?_
  by_cases here : p = n
  · subst here
    rw [neigh_setNeigh_same] at live
    exact old live
  · rw [neigh_setNeigh_ne _ _ here] at live
    exact sound.neighFresh p live

/-- A neighbour that is in no table changes. -/
theorem setLoose (sound : t.Sound) {n : NeighId} {neigh : ObjNeigh}
    (old : neigh.obj.kind = .neigh → n < t.nextNeigh)
    (loose : ∀ l, (t.link l).obj.kind = .link → n ∉ (t.link l).fdb.toList) :
    (t.setNeigh n neigh).Sound :=
  sound.setNeigh old fun l live => (sound.tables l live).congr fun p inside _ => by
    have other : p ≠ n := fun same => loose l live (same ▸ inside)
    rw [neigh_setNeigh_ne _ _ other]
    exact ⟨rfl, rfl, rfl⟩

/-- The next neighbour is in no table. -/
theorem next_loose (sound : t.Sound) {l : LinkId} (live : (t.link l).obj.kind = .link) :
    t.nextNeigh ∉ (t.link l).fdb.toList := fun inside => by
  have kind : (t.neigh t.nextNeigh).obj.kind = .neigh := by
    rw [((sound.tables l live).own _ inside).1]
  exact absurd (sound.neighFresh _ kind) (Nat.lt_irrefl _)

/-- A new neighbour that is in no table. -/
theorem addNeigh (sound : t.Sound) (neigh : ObjNeigh) : (t.addNeigh neigh).Sound := by
  have later : ({ t with nextNeigh := t.nextNeigh + 1 } : Tables).Sound :=
    sound.change rfl rfl rfl (fun _ => ⟨rfl, rfl⟩) sound.linkState sound.tables fun p live =>
      Nat.lt_succ_of_lt (sound.neighFresh p live)
  exact later.setLoose (fun _ => Nat.lt_succ_self _) fun l live => sound.next_loose live

/-- A neighbour of a table belongs to one link. -/
theorem own_link (sound : t.Sound) {l l' : LinkId} {n : NeighId}
    (live : (t.link l).obj.kind = .link) (live' : (t.link l').obj.kind = .link)
    (inside : n ∈ (t.link l).fdb.toList) (inside' : n ∈ (t.link l').fdb.toList) : l' = l := by
  have own := ((sound.tables l live).own n inside).2
  rw [((sound.tables l' live').own n inside').2] at own
  exact Option.some.inj own

/-- A neighbour of a table is reaped. -/
theorem reapNeigh (sound : t.Sound) {l : LinkId} {n : NeighId}
    (live : (t.link l).obj.kind = .link) (inside : n ∈ (t.link l).fdb.toList) :
    (t.reapNeigh n).Sound := by
  have table := sound.tables l live
  have erased := t.balancing.erase_toList n (t.link l).fdb
  simp only [Tables.reapNeigh, (table.own n inside).2, freeNeigh, unlinkNeigh, setNeigh_setNeigh]
  refine Sound.setLoose (sound.setTable fun _ => table.erase erased) (fun kind => by cases kind)
    fun l' live' inside' => ?_
  by_cases here : l' = l
  · subst here
    rw [link_setLink_same] at inside'
    exact (nodup_of_order table.order).not_mem_erase (erased ▸ inside')
  · rw [link_setLink_ne _ _ here] at live' inside'
    exact here (sound.own_link live live' inside inside')

/-- A new neighbour enters a table. -/
theorem newNeigh (sound : t.Sound) {l : LinkId} {addr : AfAddr} {lladdr : Lladdr}
    {linked : SearchTree NeighId} (live : (t.link l).obj.kind = .link)
    (done : (t.link l).fdb.link (t.neighCompare addr) t.nextNeigh = .ok (some linked)) :
    (t.newNeigh l addr lladdr linked).Sound := by
  have table := sound.tables l live
  refine (sound.addNeigh _).setTable fun _ => ?_
  refine ((sound.addNeigh _).tables l live).link done (t.balancing.insertColor_toList ..) ?_
    fun n inside sign compared => ?_
  · rw [show (t.addNeigh _).neigh t.nextNeigh = _ from neigh_setNeigh_same ..]
    exact ⟨rfl, rfl⟩
  · have other : n ≠ t.nextNeigh := fun same => sound.next_loose live (same ▸ inside)
    rw [show (t.addNeigh _).neigh t.nextNeigh = _ from neigh_setNeigh_same ..,
      show (t.addNeigh _).neigh n = t.neigh n from neigh_setNeigh_ne _ _ other]
    rw [neighCompare, if_pos (by rw [(table.own n inside).1])] at compared
    cases compared
    rfl

/-- A route's neighbour holds its link. -/
theorem getNeigh (sound : t.Sound) {l : LinkId} (addr : AfAddr)
    (live : (t.link l).obj.kind = .link) : (t.getNeigh l addr).Sound :=
  (sound.addNeigh _).setLink rfl rfl (sound.linkState l live) rfl

end Sound

/-- Some neighbours of a link have been reaped. -/
structure Emptied (l : LinkId) (items : List NeighId) (t t' : Tables) : Prop where
  link : ∀ l', l' ≠ l → t'.link l' = t.link l'
  self : ∃ fdb, t'.link l = { t.link l with fdb }
  gone : ∀ n ∈ items, (t'.neigh n).obj.kind = .unknown
  neigh : ∀ n, n ∉ items → t'.neigh n = t.neigh n
  nextLink : t'.nextLink = t.nextLink
  nextNeigh : t'.nextNeigh = t.nextNeigh
  linkTree : t'.linkTree = t.linkTree
  linkCnt : t'.linkCnt = t.linkCnt
  mode : t'.mode = t.mode

/-- The link of a neighbour that is reaped. -/
theorem link_reapNeigh (t : Tables) {l : LinkId} {n : NeighId} (link : (t.neigh n).link = some l) :
    (t.reapNeigh n).link l = { t.link l with fdb := t.balancing.erase n (t.link l).fdb } := by
  simp only [Tables.reapNeigh, link]
  exact link_setLink_same ..

theorem emptied_reapNeigh (t : Tables) {l : LinkId} {n : NeighId}
    (link : (t.neigh n).link = some l) : Emptied l [n] t (t.reapNeigh n) := by
  simp only [Tables.reapNeigh, link]
  refine ⟨fun l' other => link_setLink_ne _ _ other, ⟨_, link_setLink_same ..⟩, ?_, ?_,
    rfl, rfl, rfl, rfl, rfl⟩
  · intro p here
    rw [List.mem_singleton] at here
    subst here
    exact congrArg (·.obj.kind) (neigh_setNeigh_same ..)
  · intro p other
    rw [List.mem_singleton] at other
    exact (neigh_setNeigh_ne _ _ other).trans (neigh_setNeigh_ne _ _ other)

/-- All of several neighbours are reaped. -/
theorem emptied_reapNeighs {l : LinkId} {items : List NeighId} (nodup : items.Nodup) (t : Tables)
    (own : ∀ n ∈ items, (t.neigh n).link = some l) :
    Emptied l items t (items.foldl Tables.reapNeigh t) := by
  induction items generalizing t with
  | nil => exact ⟨fun _ _ => rfl, ⟨_, rfl⟩, fun _ inside => (nomatch inside), fun _ _ => rfl,
      rfl, rfl, rfl, rfl, rfl⟩
  | cons n items ih =>
    obtain ⟨new, nodup⟩ := List.nodup_cons.mp nodup
    have first := emptied_reapNeigh t (own n List.mem_cons_self)
    have other : ∀ p ∈ items, p ≠ n := fun p inside same => new (same ▸ inside)
    have rest := ih nodup (t.reapNeigh n) fun p inside => by
      rw [t.neigh_reapNeigh_ne (other p inside)]
      exact own p (List.mem_cons_of_mem _ inside)
    refine ⟨fun l' here => (rest.link l' here).trans (first.link l' here), ?_, ?_, ?_,
      rest.nextLink.trans first.nextLink, rest.nextNeigh.trans first.nextNeigh,
      rest.linkTree.trans first.linkTree, rest.linkCnt.trans first.linkCnt,
      rest.mode.trans first.mode⟩
    · obtain ⟨fdb, first⟩ := first.self
      obtain ⟨fdb', rest⟩ := rest.self
      rw [first] at rest
      exact ⟨fdb', rest⟩
    · intro p inside
      rcases List.mem_cons.mp inside with rfl | inside
      · refine Eq.trans ?_ (first.gone p List.mem_cons_self)
        exact congrArg (·.obj.kind) (rest.neigh p new)
      · exact rest.gone p inside
    · intro p outside
      rw [List.mem_cons, not_or] at outside
      exact (rest.neigh p outside.2).trans (t.neigh_reapNeigh_ne outside.1)

/-- What becomes of a link that is reaped. -/
theorem Sound.emptied {t : Tables} (sound : t.Sound) {l : LinkId}
    (live : (t.link l).obj.kind = .link) : Emptied l (t.link l).fdb.toList
      (t.setLink l { t.link l with
        obj := { (t.link l).obj with state := .zombie }, ifname := none }) (t.emptyLink l) :=
  emptied_reapNeighs (nodup_of_order (sound.tables l live).order) _ fun n inside =>
    ((sound.tables l live).own n inside).2

/-- A link that is reaped leaves the tree. -/
theorem Sound.freeLink {t : Tables} (sound : t.Sound) {l : LinkId}
    (live : (t.link l).obj.kind = .link) : ((t.emptyLink l).freeLink l).Sound := by
  have emptied := sound.emptied live
  have nodup := nodup_of_order sound.linkOrder
  have here : ((t.emptyLink l).freeLink l).link l = _ := link_setLink_same ..
  have other : ∀ l', l' ≠ l → ((t.emptyLink l).freeLink l).link l' = t.link l' := fun l' other =>
    (link_setLink_ne _ _ other).trans ((emptied.link l' other).trans (link_setLink_ne _ _ other))
  have tree : ((t.emptyLink l).freeLink l).linkTree.toList = t.linkTree.toList.erase l := by
    have same : (t.emptyLink l).linkTree = t.linkTree := emptied.linkTree
    rw [Tables.freeLink, same]
    exact SearchTree.Balancing.erase_toList ..
  have away : ∀ l', (((t.emptyLink l).freeLink l).link l').obj.kind = .link → l' ≠ l := by
    rintro l' live' rfl
    rw [here] at live'
    cases live'
  constructor
  case links =>
    intro l'
    rw [tree, nodup.mem_erase_iff, sound.links]
    by_cases same : l' = l
    · subst same
      rw [here]
      simp
    · rw [other l' same]
      simp [same]
  case linkOrder =>
    rw [tree]
    refine (sound.linkOrder.sublist List.erase_sublist).imp_of_mem fun {a b} first second less => ?_
    rw [other a (nodup.mem_erase_iff.mp first).1, other b (nodup.mem_erase_iff.mp second).1]
    exact less
  case linkFresh =>
    intro l' live'
    have same := away l' live'
    rw [other l' same] at live'
    refine Nat.lt_of_lt_of_eq (sound.linkFresh l' live') ?_
    exact emptied.nextLink.symm
  case linkState =>
    intro l' live'
    have same := away l' live'
    rw [other l' same] at live' ⊢
    exact sound.linkState l' live'
  case linkCnt =>
    rw [tree, List.length_erase_of_mem ((sound.links l).mpr live), ← sound.linkCnt]
    exact congrArg (· - 1) emptied.linkCnt
  case tables =>
    intro l' live'
    have same := away l' live'
    rw [other l' same] at live' ⊢
    refine (sound.tables l' live').congr fun n inside _ => ?_
    have outside : n ∉ (t.link l).fdb.toList := fun inside' =>
      same (sound.own_link live live' inside' inside)
    rw [show ((t.emptyLink l).freeLink l).neigh n = t.neigh n from emptied.neigh n outside]
    exact ⟨rfl, rfl, rfl⟩
  case neighFresh =>
    intro n live'
    have outside : n ∉ (t.link l).fdb.toList := fun inside => by
      rw [show (((t.emptyLink l).freeLink l).neigh n).obj.kind = _ from emptied.gone n inside]
        at live'
      cases live'
    rw [show ((t.emptyLink l).freeLink l).neigh n = t.neigh n from emptied.neigh n outside] at live'
    exact Nat.lt_of_lt_of_eq (sound.neighFresh n live') emptied.nextNeigh.symm

/-- A new link enters the tree. -/
theorem Sound.newLink {t : Tables} (sound : t.Sound) {m : LinkMsg} {linked : SearchTree LinkId}
    (done : t.linkTree.link (t.linkCompare m.ifindex) t.nextLink = .ok (some linked)) :
    (t.newLink m linked).Sound := by
  have tree : (t.newLink m linked).linkTree.toList = linked.toList :=
    SearchTree.Balancing.insertColor_toList ..
  have fresh : t.nextLink ∉ t.linkTree.toList := fun inside =>
    absurd (sound.linkFresh _ ((sound.links _).mp inside)) (Nat.lt_irrefl _)
  have here : (t.newLink m linked).link t.nextLink = _ := Function.update_self ..
  have other : ∀ l, l ≠ t.nextLink → (t.newLink m linked).link l = t.link l := fun l other =>
    Function.update_of_ne other ..
  constructor
  case links =>
    intro l
    rw [tree, SearchTree.mem_link done, sound.links]
    by_cases same : l = t.nextLink
    · subst same
      rw [here]
      simp [ObjLink.set]
    · rw [other l same]
      simp [same]
  case linkOrder =>
    rw [tree]
    refine SearchTree.pairwise_link_key done sound.linkOrder (fun l inside => ?_)
      fun l inside sign compared => ?_
    · rw [other l fun same => fresh (same ▸ inside)]
    · rw [linkCompare, if_pos ((sound.links l).mp inside)] at compared
      cases compared
      rw [here]
      rfl
  case linkFresh =>
    intro l live
    by_cases same : l = t.nextLink
    · exact same ▸ Nat.lt_succ_self _
    · rw [other l same] at live
      exact Nat.lt_succ_of_lt (sound.linkFresh l live)
  case linkState =>
    intro l live
    by_cases same : l = t.nextLink
    · subst same
      rw [here]
      simp [ObjLink.set]
    · rw [other l same] at live ⊢
      exact sound.linkState l live
  case linkCnt =>
    obtain ⟨before, after, whole, linked'⟩ := SearchTree.link_some done
    have cnt : (t.newLink m linked).linkCnt = t.linkCnt + 1 := rfl
    rw [cnt, tree, linked', sound.linkCnt, whole]
    simp only [List.length_append, List.length_cons]
    omega
  case tables =>
    intro l live
    by_cases same : l = t.nextLink
    · subst same
      rw [here]
      exact ⟨fun _ inside => (by cases inside), List.Pairwise.nil⟩
    · rw [other l same] at live ⊢
      exact sound.tables l live
  case neighFresh => exact sound.neighFresh

end Tables

namespace Routing

/-- The tree holds the live routes, once and in order. -/
structure Sound (i : Routing) : Prop where
  routes : ∀ r, r ∈ i.routeTree.toList ↔ (i.route r).1 = .route
  routeOrder : i.routeTree.toList.Pairwise fun r r' =>
    ((i.route r).2.word : Int) < (i.route r').2.word
  routeFresh : ∀ r, (i.route r).1 = .route → r < i.nextRoute
  routeCnt : i.routeCnt = i.routeTree.toList.length

/-- A route is announced. -/
def newRoute (i : Routing) (dst : AfAddr) (linked : SearchTree RouteId) : Routing where
  route := Function.update i.route i.nextRoute (.route, dst)
  nextRoute := i.nextRoute + 1
  routeTree := i.balancing.insertColor i.nextRoute linked
  routeCnt := i.routeCnt + 1
  balancing := i.balancing

/-- What a message can do to the routes. -/
inductive Step : Routing → Routing → Prop
  | reaps {i i' : Routing} : Reaps i i' → Step i i'
  | new {i : Routing} (dst : AfAddr) (linked : SearchTree RouteId) :
      i.routeTree.link (i.compare dst) i.nextRoute = .ok (some linked) →
      Step i (i.newRoute dst linked)

namespace Sound

variable {i i' : Routing}

/-- A search finds exactly the live route of a destination. -/
theorem find_route (sound : i.Sound) (dst : AfAddr) :
    ∃ found, i.routeTree.find (i.compare dst) = .ok found ∧
      ∀ r, found = some r ↔ i.route r = (.route, dst) := by
  have compares : ∀ r ∈ i.routeTree.toList,
      i.compare dst r = .ok ((dst.word : Int) - (i.route r).2.word) := fun r inside =>
    if_pos ((sound.routes r).mp inside)
  obtain ⟨found, search, finds⟩ := SearchTree.find_key sound.routeOrder compares
  refine ⟨found, search, fun r => (finds r).trans ?_⟩
  rw [sound.routes, Prod.ext_iff]
  refine and_congr_right fun _ => ⟨fun same => ?_, fun same => by rw [same]⟩
  exact (AfAddr.memcmp_eq_zero.mp (by rw [AfAddr.memcmp, same, Int.sub_self])).symm

/-- A route leaves the tree. -/
theorem reap (sound : i.Sound) (reap : Reap i i') : i'.Sound := by
  obtain ⟨r, live⟩ := reap
  have same := i.balancing.erase_toList r i.routeTree
  have nodup := nodup_of_order sound.routeOrder
  have inside := (sound.routes r).mpr live
  have key : ∀ p, (Function.update i.route r (.unknown, (i.route r).2) p).2 = (i.route p).2 :=
    fun p => by
      by_cases here : p = r
      · subst here
        rw [Function.update_self]
      · rw [Function.update_of_ne here]
  refine ⟨fun p => ?_, ?_, fun p live' => ?_, ?_⟩
  · rw [same, nodup.mem_erase_iff]
    by_cases here : p = r
    · subst here
      simp
    · simp [here, sound.routes]
  · simp only [same, key]
    exact sound.routeOrder.sublist List.erase_sublist
  · refine sound.routeFresh p ?_
    dsimp only at live'
    by_cases here : p = r
    · subst here
      rw [Function.update_self] at live'
      cases live'
    · rwa [Function.update_of_ne here] at live'
  · simp only [same, List.length_erase_of_mem inside, sound.routeCnt]

/-- So do several. -/
theorem reaps (sound : i.Sound) (reaps : Reaps i i') : i'.Sound := by
  induction reaps with
  | refl => exact sound
  | tail _ last ih => exact ih.reap last

/-- A new route enters the tree. -/
theorem newRoute (sound : i.Sound) {dst : AfAddr} {linked : SearchTree RouteId}
    (done : i.routeTree.link (i.compare dst) i.nextRoute = .ok (some linked)) :
    (i.newRoute dst linked).Sound := by
  have fresh : i.nextRoute ∉ i.routeTree.toList := fun inside =>
    absurd (sound.routeFresh _ ((sound.routes _).mp inside)) (Nat.lt_irrefl _)
  have here : (i.newRoute dst linked).route i.nextRoute = _ := Function.update_self ..
  have other : ∀ r, r ≠ i.nextRoute → (i.newRoute dst linked).route r = i.route r := fun r other =>
    Function.update_of_ne other ..
  have tree : (i.newRoute dst linked).routeTree.toList = linked.toList :=
    i.balancing.insertColor_toList ..
  constructor
  case routes =>
    intro r
    rw [tree, SearchTree.mem_link done, sound.routes]
    by_cases new : r = i.nextRoute
    · subst new
      rw [here]
      simp
    · rw [other r new]
      simp [new]
  case routeOrder =>
    rw [tree]
    refine SearchTree.pairwise_link_key done sound.routeOrder (fun r inside => ?_)
      fun r inside sign compared => ?_
    · rw [other r fun new => fresh (new ▸ inside)]
    · rw [compare, if_pos ((sound.routes r).mp inside)] at compared
      cases compared
      rw [here]
      rfl
  case routeFresh =>
    intro r live
    by_cases new : r = i.nextRoute
    · exact new ▸ Nat.lt_succ_self _
    · rw [other r new] at live
      exact Nat.lt_succ_of_lt (sound.routeFresh r live)
  case routeCnt =>
    obtain ⟨before, after, whole, linked'⟩ := SearchTree.link_some done
    have cnt : (i.newRoute dst linked).routeCnt = i.routeCnt + 1 := rfl
    rw [cnt, tree, linked', sound.routeCnt, whole]
    simp only [List.length_append, List.length_cons]
    omega

/-- Every step keeps the tree as it should be. -/
theorem step (sound : i.Sound) (step : Step i i') : i'.Sound := by
  cases step with
  | reaps reaps => exact sound.reaps reaps
  | new dst linked done => exact sound.newRoute done

end Sound

end Routing

end FlowerRoute
