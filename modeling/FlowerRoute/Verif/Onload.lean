import FlowerRoute.Lib.LinkedList
import FlowerRoute.Model.Onload
import Mathlib.Data.List.TakeWhile

/-!
# Static prefix parsing

What `onload_add_prefix` stores. The lists of a configuration that the function itself built are
linked lists with a correct tail pointer each, so storing appends one entry to one list. Which
address is stored, and which texts pass for a mask, is compared with what a prefix means.
-/

namespace FlowerRoute

open LinkedList Outcome Tlv

variable {config config' : PrefixConfig} {listName : List Char} {addr : Bytes}

/-! ## The lists -/

/-- The next list of a list. -/
def PrefixConfig.listNext (config : PrefixConfig) (list : PrefixListId) : Option PrefixListId :=
  (config.lists.cell list).next

/-- The next entry of an entry. -/
def PrefixConfig.entryNext (config : PrefixConfig) (entry : PrefixEntryId) :
    Option PrefixEntryId :=
  (config.entries.cell entry).next

/-- The names of all lists, each with the addresses of its entries, in order. -/
def PrefixConfig.contents (config : PrefixConfig) : List (List Char × List Bytes) :=
  (walk config.listNext config.lists.next config.prefixListHead).map fun list =>
    ((config.lists.cell list).name,
      (walk config.entryNext config.entries.next (config.lists.cell list).head).map fun entry =>
        (config.entries.cell entry).addr)

/-- The contents with one more entry at the tail of the named list. -/
def appendPrefix (listName : List Char) (addr : Bytes) :
    List (List Char × List Bytes) → List (List Char × List Bytes)
  | [] => [(listName, [addr])]
  | (name, addrs) :: rest =>
    if name = listName then (name, addrs ++ [addr]) :: rest
    else (name, addrs) :: appendPrefix listName addr rest

/-- Appending to a list of the contents. -/
theorem appendPrefix_found {α : Type} {f : α → List Char × List Bytes} {before after : List α}
    {found : α} [DecidableEq α] (named : (f found).1 = listName)
    (others : ∀ other ∈ before, (f other).1 ≠ listName)
    (nodup : (before ++ found :: after).Nodup) :
    appendPrefix listName addr ((before ++ found :: after).map f) =
      (before ++ found :: after).map fun other =>
        ((f other).1, (f other).2 ++ if other = found then [addr] else []) := by
  induction before with
  | nil =>
    have absent : found ∉ after := (List.nodup_cons.mp nodup).1
    simp only [List.nil_append, List.map_cons, appendPrefix, named, if_true]
    congr 1
    apply List.map_congr_left
    intro other inside
    have different : other ≠ found := by
      rintro rfl
      exact absent inside
    rw [if_neg different, List.append_nil]
  | cons other before ih =>
    have different : other ≠ found := by
      rintro rfl
      exact (List.nodup_cons.mp nodup).1 (by simp)
    obtain ⟨unnamed, others⟩ := List.forall_mem_cons.mp others
    simp only [List.cons_append, List.map_cons, appendPrefix, unnamed, different, if_false,
      List.append_nil]
    congr 1
    exact ih others (List.nodup_cons.mp nodup).2

/-- Appending a list to the contents. -/
theorem appendPrefix_absent {lists : List (List Char × List Bytes)}
    (others : ∀ list ∈ lists, list.1 ≠ listName) :
    appendPrefix listName addr lists = lists ++ [(listName, [addr])] := by
  induction lists with
  | nil => rfl
  | cons list lists ih =>
    obtain ⟨unnamed, others⟩ := List.forall_mem_cons.mp others
    simp only [appendPrefix, unnamed, if_false, ih others, List.cons_append]

/-- The lists are `ids`, and `members` are the entries of each. -/
structure PrefixConfig.Linked (config : PrefixConfig) (ids : List PrefixListId)
    (members : PrefixListId → List PrefixEntryId) : Prop where
  lists : LinkedList.Linked config.listNext config.prefixListHead ids
  listBound : ∀ list ∈ ids, list < config.lists.next
  entries : ∀ list ∈ ids,
    LinkedList.Linked config.entryNext (config.lists.cell list).head (members list)
  tails : ∀ list ∈ ids, (config.lists.cell list).tail = (members list).getLast?
  entryBound : ∀ list ∈ ids, ∀ entry ∈ members list, entry < config.entries.next
  /-- No entry is in two lists. -/
  disjoint : ∀ list ∈ ids, ∀ other ∈ ids, ∀ entry ∈ members list, entry ∈ members other →
    list = other

namespace PrefixConfig.Linked

/-- No lists. -/
theorem init : PrefixConfig.Linked {} [] fun _ => [] := by
  constructor
  · rfl
  all_goals exact fun _ inside => absurd inside List.not_mem_nil

variable {ids : List PrefixListId} {members : PrefixListId → List PrefixEntryId}

/-- The contents in terms of the lists and their entries. -/
theorem contents_eq (linked : config.Linked ids members) :
    config.contents = ids.map fun list => ((config.lists.cell list).name,
      (members list).map fun entry => (config.entries.cell entry).addr) := by
  unfold PrefixConfig.contents
  rw [linked.lists.walk_eq (linked.lists.length_le linked.listBound)]
  apply List.map_congr_left
  intro list inside
  have entries := linked.entries list inside
  rw [entries.walk_eq (entries.length_le (linked.entryBound list inside))]

/-- The loop of `lookup_prefix_list` from a list on: it stops at the first list with the name,
or at the pointer that ends the lists. -/
theorem lookup_loop {rest : List PrefixListId} {place : ListPlace}
    (here : LinkedList.Linked config.listNext (config.deref place) rest) {fuel : Nat}
    (enough : rest.length ≤ fuel) :
    ∃ list next, lookupPrefixListLoop listName config fuel place = .ok (list, next) ∧
      match list with
      | some list => (config.lists.cell list).name = listName ∧
        ∃ before after, rest = before ++ list :: after ∧
          ∀ other ∈ before, (config.lists.cell other).name ≠ listName
      | none => (∀ other ∈ rest, (config.lists.cell other).name ≠ listName) ∧
        next = match rest.getLast? with
          | none => place
          | some last => .next last := by
  induction rest generalizing place fuel with
  | nil =>
    have ended : config.deref place = none := here
    refine ⟨none, place, ?_, ?_⟩
    · unfold lookupPrefixListLoop
      rw [ended]
    · exact ⟨fun _ inside => absurd inside List.not_mem_nil, rfl⟩
  | cons list rest ih =>
    obtain ⟨first, tail⟩ := here
    by_cases named : (config.lists.cell list).name = listName
    · refine ⟨some list, place, ?_, named, [], rest, rfl, ?_⟩
      · unfold lookupPrefixListLoop
        rw [first]
        simp only [named, if_true]
      · exact fun _ inside => absurd inside List.not_mem_nil
    · cases fuel with
      | zero => simp at enough
      | succ fuel =>
        have shorter : rest.length ≤ fuel := by simpa using enough
        have onward : LinkedList.Linked config.listNext (config.deref (.next list)) rest := tail
        obtain ⟨found, next, search, result⟩ := ih onward shorter
        refine ⟨found, next, ?_, ?_⟩
        · unfold lookupPrefixListLoop
          rw [first]
          simp only [named, if_false]
          exact search
        · cases found with
          | some found =>
            obtain ⟨same, before, after, split, others⟩ := result
            refine ⟨same, list :: before, after, ?_, ?_⟩
            · rw [split, List.cons_append]
            · exact List.forall_mem_cons.mpr ⟨named, others⟩
          | none =>
            obtain ⟨others, last⟩ := result
            refine ⟨List.forall_mem_cons.mpr ⟨named, others⟩, ?_⟩
            cases rest with
            | nil => exact last
            | cons j rest =>
              obtain ⟨k, atEnd⟩ : ∃ k, (j :: rest).getLast? = some k := ⟨_, List.getLast?_cons⟩
              rw [List.getLast?_cons_cons, atEnd]
              rw [atEnd] at last
              exact last

/-- What `get_or_create_prefix_list` changes where no list has the name. -/
theorem created {next : ListPlace}
    (search : lookupPrefixListLoop listName config config.lists.next .head = .ok (none, next))
    (fresh : config.lists.next ∉ ids)
    (last : next = match ids.getLast? with
      | none => .head
      | some last => .next last) :
    ∃ config', getOrCreatePrefixList listName config = .ok (config.lists.next, config') ∧
      (∀ list ∈ ids, config'.lists.cell list = { config.lists.cell list with
        next := if ids.getLast? = some list then some config.lists.next
          else (config.lists.cell list).next }) ∧
      config'.lists.cell config.lists.next = { name := listName } ∧
      config'.prefixListHead =
        (if ids = [] then some config.lists.next else config.prefixListHead) ∧
      config'.entries = config.entries ∧ config'.lists.next = config.lists.next + 1 := by
  refine ⟨({ config with lists := config.lists.alloc { name := listName } } :
    PrefixConfig).assign config.lists.next next, ?_, ?_, ?_, ?_, ?_, ?_⟩
  · unfold getOrCreatePrefixList lookupPrefixList
    rw [search]
    rfl
  · intro list inside
    have old : list ≠ config.lists.next := fun same => fresh (same ▸ inside)
    cases atEnd : ids.getLast? with
    | none => simp [List.getLast?_eq_none_iff.mp atEnd] at inside
    | some k =>
      rw [atEnd] at last
      rw [last]
      simp only [PrefixConfig.assign, Heap.cell_modify, Heap.cell_alloc_ne _ _ old,
        Option.some.injEq]
      by_cases here : list = k
      · simp [here]
      · have away : ¬ k = list := fun same => here same.symm
        simp [here, away]
  · cases atEnd : ids.getLast? with
    | none =>
      rw [atEnd] at last
      rw [last]
      exact Heap.cell_alloc_same ..
    | some k =>
      rw [atEnd] at last
      rw [last]
      have other : config.lists.next ≠ k := fun same =>
        fresh (same ▸ List.mem_of_getLast? atEnd)
      simp only [PrefixConfig.assign]
      rw [Heap.cell_modify_ne _ _ other, Heap.cell_alloc_same]
  · cases atEnd : ids.getLast? with
    | none =>
      rw [atEnd] at last
      rw [last, if_pos (List.getLast?_eq_none_iff.mp atEnd)]
      rfl
    | some k =>
      rw [atEnd] at last
      rw [last]
      have nonempty : ids ≠ [] := by
        rintro rfl
        simp at atEnd
      rw [if_neg nonempty]
      rfl
  · cases next <;> rfl
  · cases next <;> rfl

/-- `get_or_create_prefix_list` returns the list with the name. -/
theorem getOrCreate (linked : config.Linked ids members) (listName : List Char) (addr : Bytes) :
    ∃ list config' ids' members', getOrCreatePrefixList listName config = .ok (list, config') ∧
      config'.Linked ids' members' ∧ list ∈ ids' ∧
      appendPrefix listName addr config.contents = ids'.map fun other =>
        ((config'.lists.cell other).name,
          ((members' other).map fun entry => (config'.entries.cell entry).addr) ++
            if other = list then [addr] else []) := by
  have enough := linked.lists.length_le linked.listBound
  have here : LinkedList.Linked config.listNext (config.deref .head) ids := linked.lists
  obtain ⟨found, next, search, result⟩ := @lookup_loop config listName ids .head here _ enough
  cases found with
  | some list =>
    obtain ⟨named, before, after, split, others⟩ := result
    refine ⟨list, config, ids, members, ?_, linked, ?_, ?_⟩
    · unfold getOrCreatePrefixList lookupPrefixList
      rw [search]
      rfl
    · rw [split]
      simp
    · have nodup := linked.lists.nodup
      rw [linked.contents_eq]
      rw [split] at nodup ⊢
      exact appendPrefix_found named others nodup
  | none =>
    obtain ⟨others, last⟩ := result
    have fresh : config.lists.next ∉ ids := fun inside =>
      Nat.lt_irrefl _ (linked.listBound _ inside)
    obtain ⟨config', made, cells, new, head, entries, bound⟩ := created search fresh last
    have older {list : PrefixListId} (inside : list ∈ ids ++ [config.lists.next])
        (here : list ≠ config.lists.next) : list ∈ ids := by
      simpa [here] using inside
    have owned {list : PrefixListId} {entry : PrefixEntryId}
        (member : entry ∈ if list = config.lists.next then [] else members list) :
        list ≠ config.lists.next ∧ entry ∈ members list := by
      split at member
      · exact absurd member List.not_mem_nil
      · next here => exact ⟨here, member⟩
    refine ⟨config.lists.next, config', ids ++ [config.lists.next],
      fun list => if list = config.lists.next then [] else members list, made, ?_, by simp, ?_⟩
    · constructor
      · unfold PrefixConfig.listNext
        rw [head]
        apply linked.lists.append
        · rw [new]
        · intro list atEnd
          rw [cells list (List.mem_of_getLast? atEnd)]
          exact if_pos atEnd
        · intro list inside inner
          rw [cells list inside]
          exact if_neg inner
      · intro list inside
        rw [bound]
        rcases List.mem_append.mp inside with old | last
        · exact Nat.lt_succ_of_lt (linked.listBound list old)
        · rw [List.mem_singleton.mp last]
          exact Nat.lt_succ_self _
      · intro list inside
        unfold PrefixConfig.entryNext
        rw [entries]
        by_cases here : list = config.lists.next
        · rw [here, new, if_pos rfl]
          rfl
        · rw [if_neg here, cells list (older inside here)]
          exact linked.entries list (older inside here)
      · intro list inside
        by_cases here : list = config.lists.next
        · rw [here, new, if_pos rfl]
          rfl
        · rw [if_neg here, cells list (older inside here)]
          exact linked.tails list (older inside here)
      · intro list inside entry member
        rw [entries]
        obtain ⟨here, member⟩ := owned member
        exact linked.entryBound list (older inside here) entry member
      · intro list inside other inside' entry member member'
        obtain ⟨here, member⟩ := owned member
        obtain ⟨here', member'⟩ := owned member'
        exact linked.disjoint list (older inside here) other (older inside' here') entry
          member member'
    · rw [linked.contents_eq, appendPrefix_absent, List.map_append]
      · congr 1
        · apply List.map_congr_left
          intro list inside
          have here : list ≠ config.lists.next := fun same => fresh (same ▸ inside)
          dsimp only
          rw [if_neg here, if_neg here, cells list inside, entries, List.append_nil]
        · simp [new]
      · intro list inside
        obtain ⟨other, member, rfl⟩ := List.mem_map.mp inside
        exact others other member

/-- What `onload_store_prefix` changes once it has the list. -/
theorem stored {config₁ : PrefixConfig} (linked : config₁.Linked ids members) (addr : Bytes)
    {list : PrefixListId} (inside : list ∈ ids)
    (found : getOrCreatePrefixList listName config = .ok (list, config₁)) :
    ∃ config', onloadStorePrefix listName { addr } config = .ok config' ∧
      (∀ other, config'.lists.cell other = if other = list then
        { config₁.lists.cell other with
          head := if members list = [] then some config₁.entries.next
            else (config₁.lists.cell other).head
          tail := some config₁.entries.next }
        else config₁.lists.cell other) ∧
      config'.entries.cell config₁.entries.next = { addr } ∧
      (∀ entry, entry ≠ config₁.entries.next → config'.entries.cell entry =
        { config₁.entries.cell entry with
          next := if (members list).getLast? = some entry then some config₁.entries.next
            else (config₁.entries.cell entry).next }) ∧
      config'.prefixListHead = config₁.prefixListHead ∧
      config'.lists.next = config₁.lists.next ∧
      config'.entries.next = config₁.entries.next + 1 := by
  have tail := linked.tails list inside
  cases atEnd : (members list).getLast? with
  | none =>
    have empty := List.getLast?_eq_none_iff.mp atEnd
    rw [atEnd] at tail
    refine ⟨{ config₁ with
      entries := config₁.entries.alloc { addr }
      lists := (config₁.lists.modify list fun cell =>
        { cell with head := some config₁.entries.next }).modify list fun cell =>
          { cell with tail := some config₁.entries.next } }, ?_, ?_, ?_, ?_, rfl, rfl, rfl⟩
    · unfold onloadStorePrefix
      rw [found, ok_bind]
      simp only [tail]
      rfl
    · intro other
      simp only [Heap.modify_modify, Heap.cell_modify, empty, if_true]
    · exact Heap.cell_alloc_same ..
    · intro entry old
      simp [Heap.cell_alloc_ne _ _ old]
  | some last =>
    have nonempty : members list ≠ [] := by
      intro empty
      rw [empty] at atEnd
      simp at atEnd
    have old : last < config₁.entries.next :=
      linked.entryBound list inside last (List.mem_of_getLast? atEnd)
    rw [atEnd] at tail
    refine ⟨{ config₁ with
      entries := (config₁.entries.alloc { addr }).modify last fun cell =>
        { cell with next := some config₁.entries.next }
      lists := config₁.lists.modify list fun cell =>
        { cell with tail := some config₁.entries.next } }, ?_, ?_, ?_, ?_, rfl, rfl, rfl⟩
    · unfold onloadStorePrefix
      rw [found, ok_bind]
      simp only [tail]
      rfl
    · intro other
      simp only [Heap.cell_modify, nonempty, if_false]
    · simp only
      rw [Heap.cell_modify_ne _ _ (Nat.ne_of_gt old), Heap.cell_alloc_same]
    · intro entry other
      simp only [Heap.cell_modify, Heap.cell_alloc_ne _ _ other, Option.some.injEq]
      by_cases here : entry = last
      · simp [here]
      · have away : ¬ last = entry := fun same => here same.symm
        simp [here, away]

/-- `onload_store_prefix` appends one entry to one list. -/
theorem store (linked : config.Linked ids members) (listName : List Char) (addr : Bytes) :
    ∃ config' ids' members', onloadStorePrefix listName { addr } config = .ok config' ∧
      config'.Linked ids' members' ∧
      config'.contents = appendPrefix listName addr config.contents := by
  obtain ⟨list, config₁, ids, members, found, linked, inside, contents⟩ :=
    linked.getOrCreate listName addr
  have old {other : PrefixListId} (member : other ∈ ids) {entry : PrefixEntryId}
      (within : entry ∈ members other) : entry ≠ config₁.entries.next :=
    Nat.ne_of_lt (linked.entryBound other member entry within)
  have owned {other : PrefixListId} {entry : PrefixEntryId}
      (within : entry ∈ if other = list then members other ++ [config₁.entries.next]
        else members other) :
      (other = list ∧ entry = config₁.entries.next) ∨ entry ∈ members other := by
    split at within
    · next here =>
      rcases List.mem_append.mp within with within | last
      · exact .inr within
      · exact .inl ⟨here, List.mem_singleton.mp last⟩
    · exact .inr within
  obtain ⟨config', stored, cells, new, others, lists, next, bound⟩ :=
    linked.stored addr inside found
  have linked' : config'.Linked ids fun other =>
      if other = list then members other ++ [config₁.entries.next] else members other := by
    constructor
    · rw [lists]
      apply linked.lists.congr
      intro other _
      unfold PrefixConfig.listNext
      rw [cells]
      split <;> rfl
    · intro other member
      rw [next]
      exact linked.listBound other member
    · intro other member
      rw [cells]
      by_cases here : other = list
      · rw [if_pos here, if_pos here, here]
        apply (linked.entries list inside).append
        · unfold PrefixConfig.entryNext
          rw [new]
        · intro entry atEnd
          unfold PrefixConfig.entryNext
          rw [others entry (old inside (List.mem_of_getLast? atEnd)), if_pos atEnd]
        · intro entry within inner
          unfold PrefixConfig.entryNext
          rw [others entry (old inside within), if_neg inner]
      · rw [if_neg here, if_neg here]
        apply (linked.entries other member).congr
        intro entry within
        unfold PrefixConfig.entryNext
        rw [others entry (old member within), if_neg]
        intro atEnd
        exact here (linked.disjoint other member list inside entry within
          (List.mem_of_getLast? atEnd))
    · intro other member
      rw [cells]
      by_cases here : other = list
      · rw [if_pos here, if_pos here, List.getLast?_concat]
      · rw [if_neg here, if_neg here]
        exact linked.tails other member
    · intro other member entry within
      rw [bound]
      rcases owned within with ⟨-, same⟩ | within
      · rw [same]
        exact Nat.lt_succ_self _
      · exact Nat.lt_succ_of_lt (linked.entryBound other member entry within)
    · intro other member other' member' entry within within'
      rcases owned within with ⟨here, same⟩ | within
      · rcases owned within' with ⟨here', -⟩ | within'
        · rw [here, here']
        · exact absurd same (old member' within')
      · rcases owned within' with ⟨-, same⟩ | within'
        · exact absurd same (old member within)
        · exact linked.disjoint other member other' member' entry within within'
  refine ⟨config', ids, _, stored, linked', ?_⟩
  rw [linked'.contents_eq, contents]
  apply List.map_congr_left
  intro other member
  have name : (config'.lists.cell other).name = (config₁.lists.cell other).name := by
    rw [cells]
    split <;> rfl
  have kept : (members other).map (fun entry => (config'.entries.cell entry).addr) =
      (members other).map fun entry => (config₁.entries.cell entry).addr := by
    apply List.map_congr_left
    intro entry within
    rw [others entry (old member within)]
  rw [name]
  by_cases here : other = list
  · simp only [here, if_true, List.map_append, List.map_cons, List.map_nil, new]
    rw [← here, kept]
  · simp only [here, if_false, List.append_nil]
    rw [kept]

end PrefixConfig.Linked

/-! ## The mask -/

section Mask

variable {text blanks sign digits : List Char} {afMaxMask : Nat}

/-- A plain decimal number. -/
def Plain (text : List Char) (value : Nat) : Prop :=
  text ≠ [] ∧ (∀ c ∈ text, c.isDigit = true) ∧ digitsValue text = value

/-- Blanks, a sign and digits, as `strtol` reads them to the end. -/
structure Numeral (text blanks sign digits : List Char) : Prop where
  split : text = blanks ++ (sign ++ digits)
  blanks : ∀ c ∈ blanks, isSpace c = true
  sign : sign = [] ∨ sign = ['+'] ∨ sign = ['-']
  digits : digits ≠ [] ∧ ∀ c ∈ digits, c.isDigit = true

/-- The `int` that a numeral becomes. -/
def numeralInt (sign digits : List Char) : Int :=
  toInt32 (saturate (if sign = ['-'] then -(digitsValue digits : Int) else digitsValue digits))

/-- A text that is no plain number in the range and that passes for one in the code. -/
def Misread (afMaxMask : Nat) (text : List Char) : Prop :=
  (¬ ∃ value ≤ afMaxMask, Plain text value) ∧
    (text = [] ∨ ∃ blanks sign digits, Numeral text blanks sign digits ∧
      0 ≤ numeralInt sign digits ∧ numeralInt sign digits ≤ afMaxMask)

/-- No digit is a blank or a sign. -/
theorem isDigit_other {c : Char} (digit : c.isDigit = true) :
    isSpace c = false ∧ c ≠ '+' ∧ c ≠ '-' := by
  refine ⟨?_, ?_, ?_⟩
  · cases space : isSpace c with
    | false => rfl
    | true =>
      have cases : c ∈ [' ', '\t', '\n', '\x0b', '\x0c', '\r'] := of_decide_eq_true space
      simp only [List.mem_cons, List.not_mem_nil, or_false] at cases
      rcases cases with rfl | rfl | rfl | rfl | rfl | rfl <;> simp [Char.isDigit] at digit
  · rintro rfl
    simp [Char.isDigit] at digit
  · rintro rfl
    simp [Char.isDigit] at digit

/-- `strtol` on a numeral. -/
theorem strtol_numeral (numeral : Numeral text blanks sign digits) :
    strtol text = (saturate (if sign = ['-'] then -(digitsValue digits : Int)
      else digitsValue digits), []) := by
  obtain ⟨split, blank, signs, nonempty, digit⟩ := numeral
  have noBlanks : (sign ++ digits).dropWhile isSpace = sign ++ digits := by
    rcases signs with rfl | rfl | rfl
    · cases digits with
      | nil => exact absurd rfl nonempty
      | cons d rest =>
        have noBlank := (isDigit_other (digit d List.mem_cons_self)).1
        simp [noBlank]
    · rfl
    · rfl
  have blanks : text.dropWhile isSpace = sign ++ digits := by
    rw [split, List.dropWhile_append_of_pos blank, noBlanks]
  have read : digits.takeWhile Char.isDigit = digits := List.takeWhile_eq_self_iff.mpr digit
  have left : digits.dropWhile Char.isDigit = [] := List.dropWhile_eq_nil_iff.mpr digit
  have signed : readSign (sign ++ digits) = (decide (sign = ['-']), digits) := by
    rcases signs with rfl | rfl | rfl
    · cases digits with
      | nil => exact absurd rfl nonempty
      | cons d rest =>
        obtain ⟨-, plus, minus⟩ := isDigit_other (digit d List.mem_cons_self)
        unfold readSign
        split
        · next same => exact absurd (List.cons.inj same).1 minus
        · next same => exact absurd (List.cons.inj same).1 plus
        · simp
    · rfl
    · rfl
  unfold strtol
  simp only [blanks, signed, read, left, nonempty, if_false, decide_eq_true_eq]

/-- The text before the number is an optional sign. -/
theorem readSign_split {negative : Bool} {number : List Char}
    (read : readSign text = (negative, number)) :
    ∃ sign, text = sign ++ number ∧ (sign = [] ∨ sign = ['+'] ∨ sign = ['-']) ∧
      negative = decide (sign = ['-']) := by
  unfold readSign at read
  split at read <;> cases read
  · exact ⟨['-'], rfl, .inr (.inr rfl), rfl⟩
  · exact ⟨['+'], rfl, .inr (.inl rfl), rfl⟩
  · exact ⟨[], rfl, .inl rfl, rfl⟩

/-- A text that `strtol` reads to its end is empty or a numeral. -/
theorem strtol_end {value : Int} (read : strtol text = (value, [])) :
    (text = [] ∧ value = 0) ∨ ∃ blanks sign digits, Numeral text blanks sign digits ∧
      value = saturate (if sign = ['-'] then -(digitsValue digits : Int)
        else digitsValue digits) := by
  cases signed : readSign (text.dropWhile isSpace) with
  | mk negative number =>
    obtain ⟨sign, split, signs, rfl⟩ := readSign_split signed
    unfold strtol at read
    simp only [signed] at read
    by_cases none : number.takeWhile Char.isDigit = []
    · rw [if_pos none] at read
      obtain ⟨rfl, rfl⟩ := Prod.mk.inj read
      exact .inl ⟨rfl, rfl⟩
    · rw [if_neg none] at read
      obtain ⟨rfl, left⟩ := Prod.mk.inj read
      have digits := List.dropWhile_eq_nil_iff.mp left
      rw [List.takeWhile_eq_self_iff.mpr digits] at none ⊢
      refine .inr ⟨text.takeWhile isSpace, sign, number, ⟨?_, ?_, signs, none, digits⟩, ?_⟩
      · rw [← split, List.takeWhile_append_dropWhile]
      · exact fun c inside => List.mem_takeWhile_imp inside
      · simp only [decide_eq_true_eq]

/-- An `int` in the range of a mask is converted without loss. -/
theorem toInt32_small {value : Nat} (small : value ≤ 128) : toInt32 value = value := by
  unfold toInt32
  rw [BitVec.toInt_ofInt]
  apply Int.bmod_eq_of_le <;> omega

/-- A mask is read to the end and its `int` is in the range. -/
theorem onloadMask_some_iff {len : UInt8} : onloadMask (some text) afMaxMask = some len ↔
    ∃ long, strtol text = (long, []) ∧ 0 ≤ toInt32 long ∧ toInt32 long ≤ afMaxMask ∧
      len = UInt8.ofNat (toInt32 long).toNat := by
  cases read : strtol text with
  | mk long endptr =>
    simp only [onloadMask, read, ne_eq, Prod.mk.injEq]
    constructor
    · intro accepted
      split at accepted
      · cases accepted
      · next ended =>
        split at accepted
        · cases accepted
        · next inside =>
          cases accepted
          exact ⟨long, ⟨rfl, not_not.mp ended⟩, by omega, by omega, rfl⟩
    · rintro ⟨_, ⟨rfl, rfl⟩, low, high, rfl⟩
      have inside : ¬ (toInt32 long < 0 ∨ toInt32 long > afMaxMask) := by omega
      simp [inside]

/-- A plain number in the range is read as itself. -/
theorem onloadMask_plain {value : Nat} (plain : Plain text value) (small : value ≤ afMaxMask)
    (range : afMaxMask ≤ 128) :
    onloadMask (some text) afMaxMask = some (UInt8.ofNat value) := by
  obtain ⟨nonempty, digits, rfl⟩ := plain
  have numeral : Numeral text [] [] text := ⟨rfl, by simp, .inl rfl, nonempty, digits⟩
  have read := strtol_numeral numeral
  have fits : saturate (digitsValue text) = digitsValue text := by
    unfold saturate
    omega
  rw [if_neg (by simp), fits] at read
  have converted := toInt32_small (Nat.le_trans small range)
  refine onloadMask_some_iff.mpr ⟨_, read, ?_, ?_, ?_⟩
  · rw [converted]
    omega
  · rw [converted]
    omega
  · rw [converted]
    rfl

/-- What is accepted is a plain number in the range or misread. -/
theorem onloadMask_accepts :
    (∃ len, onloadMask (some text) afMaxMask = some len) ↔
      (∃ len, onloadMask (some text) afMaxMask = some len ∧
        ∃ value ≤ afMaxMask, Plain text value) ∨ Misread afMaxMask text := by
  constructor
  · rintro ⟨len, accepted⟩
    by_cases plain : ∃ value ≤ afMaxMask, Plain text value
    · exact .inl ⟨len, accepted, plain⟩
    · refine .inr ⟨plain, ?_⟩
      obtain ⟨long, read, low, high, -⟩ := onloadMask_some_iff.mp accepted
      rcases strtol_end read with ⟨empty, -⟩ | ⟨blanks, sign, digits, numeral, rfl⟩
      · exact .inl empty
      · exact .inr ⟨blanks, sign, digits, numeral, low, high⟩
  · rintro (⟨len, accepted, -⟩ | ⟨-, rfl | ⟨blanks, sign, digits, numeral, low, high⟩⟩)
    · exact ⟨len, accepted⟩
    · refine ⟨0, onloadMask_some_iff.mpr ⟨0, rfl, ?_, ?_, rfl⟩⟩
      · decide
      · exact Int.natCast_nonneg _
    · exact ⟨_, onloadMask_some_iff.mpr ⟨_, strtol_numeral numeral, low, high, rfl⟩⟩

end Mask

/-! ## The address -/

section Layout

variable {bytes : Bytes} {af len : UInt8}

/-- The bytes of a union are those written to it. -/
theorem be_someInAddr (short : bytes.length ≤ 16) :
    be 16 (someInAddr bytes).toNat = bytes ++ List.replicate (16 - bytes.length) 0 := by
  have size : (bytes ++ List.replicate (16 - bytes.length) 0).length = 16 := by
    rw [List.length_append, List.length_replicate]
    omega
  have bound := leNat_lt (bytes ++ List.replicate (16 - bytes.length) 0).reverse
  rw [List.length_reverse, size] at bound
  unfold someInAddr
  rw [BitVec.toNat_ofNat, Nat.mod_eq_of_lt (by exact bound)]
  have written := be_beNat (bytes ++ List.replicate (16 - bytes.length) 0)
  rwa [size] at written

/-- The address of an IPv4 literal has no bytes beyond its four. -/
theorem v4Part_someInAddr (size : bytes.length = 4) :
    v4Part (someInAddr bytes) = someInAddr bytes := by
  have low := leNat_lt bytes.reverse
  rw [List.length_reverse, size] at low
  have number : beNat (bytes ++ List.replicate (16 - bytes.length) 0) =
      2 ^ 96 * leNat bytes.reverse := by
    unfold beNat
    rw [size, List.reverse_append, List.reverse_replicate, leNat_replicate_append]
    rfl
  apply BitVec.eq_of_toNat_eq
  simp only [v4Part, someInAddr, number, BitVec.toNat_shiftLeft, BitVec.toNat_ushiftRight,
    BitVec.toNat_ofNat, Nat.shiftLeft_eq, Nat.shiftRight_eq_div_pow]
  omega

/-- The bytes that `build_af_addr` gives an address. -/
theorem built_bytes (family : (af = afInet ∧ bytes.length = 4) ∨
      (af = afInet6 ∧ bytes.length = 16)) :
    ∃ built, buildAfAddr af (some (someInAddr bytes)) len = .ok built ∧
      built.bytes = [af, len, 0, 0] ++ (bytes ++ List.replicate (16 - bytes.length) 0) := by
  have padding : be 2 (0 : UInt16).toNat = [0, 0] := by decide
  rcases family with ⟨rfl, size⟩ | ⟨rfl, size⟩
  · refine ⟨⟨afInet, len, someInAddr bytes, 0⟩, ?_, ?_⟩
    · simp [buildAfAddr, v4Part_someInAddr size]
    · unfold AfAddr.bytes
      rw [be_someInAddr (by omega), padding]
      rfl
  · refine ⟨⟨afInet6, len, someInAddr bytes, 0⟩, rfl, ?_⟩
    unfold AfAddr.bytes
    rw [be_someInAddr (by omega), padding]
    rfl

/-- The bytes that `onload_add_prefix` gives an address. -/
def onloadBytes (af len : UInt8) (bytes : Bytes) : Bytes :=
  writeBytes (writeBytes (writeBytes (List.replicate 20 0) 0 bytes) 1 [len]) 0 [af]

/-- The two layouts agree on the zero address only. -/
theorem onloadBytes_eq (size : bytes.length = 4 ∨ bytes.length = 16) :
    onloadBytes af len bytes = [af, len, 0, 0] ++ (bytes ++ List.replicate (16 - bytes.length) 0) ↔
      ∀ byte ∈ bytes, byte = 0 := by
  rcases size with size | size
  · obtain ⟨a, b, c, d, rfl⟩ : ∃ a b c d, bytes = [a, b, c, d] := by
      match bytes, size with
      | [a, b, c, d], _ => exact ⟨a, b, c, d, rfl⟩
    simp [onloadBytes, writeBytes, List.replicate]
    grind
  · match bytes, size with
    | [a, b, c, d, e, f, g, h, i, j, k, l, m, n, o, p], _ =>
      simp [onloadBytes, writeBytes, List.replicate]
      grind

end Layout

/-! ## The prefix -/

section Prefix

variable {p : InetPton} {s literal : List Char} {maskstr : Option (List Char)} {af : UInt8}
  {bytes : Bytes}

/-- A string, split at its first slash. -/
structure SplitAt (s literal : List Char) (maskstr : Option (List Char)) : Prop where
  noSlash : '/' ∉ literal
  whole : s = match maskstr with
    | none => literal
    | some text => literal ++ '/' :: text

/-- The family that `onload_add_prefix` takes a literal for. -/
def literalFamily (literal : List Char) : UInt8 := if ':' ∈ literal then afInet6 else afInet

/-- The length of an address of a family in bits. -/
def maxMask (af : UInt8) : Nat := if af = afInet then 32 else 128

/-- A string is `addr` or `addr/len`: the family, the address and the length it stands for. -/
def Denotes (p : InetPton) (s : List Char) (af : UInt8) (bytes : Bytes) (len : Nat) : Prop :=
  (af = afInet ∨ af = afInet6) ∧ ∃ literal, p.parse af literal = some bytes ∧
    ((s = literal ∧ len = maxMask af) ∨
      ∃ text, s = literal ++ '/' :: text ∧ Plain text len ∧ len ≤ maxMask af)

/-- What a call for a string does: a prefix is appended to the named list as `build_af_addr`
lays it out, and every other string is rejected. -/
def ParsesPrefix (p : InetPton) (listName s : List Char) (config : PrefixConfig) : Prop :=
  (∀ af bytes len, Denotes p s af bytes len → ∃ built config',
    buildAfAddr af (some (someInAddr bytes)) (UInt8.ofNat len) = .ok built ∧
      onloadAddPrefix p listName s config = .ok (0, config') ∧
      config'.contents = appendPrefix listName built.bytes config.contents) ∧
  ((∀ af bytes len, ¬ Denotes p s af bytes len) →
    onloadAddPrefix p listName s config = .ok (minusEinval, config))

/-- A string that denotes a zero address or none, and with no misread mask after a literal. -/
def ZeroAndRead (p : InetPton) (s : List Char) : Prop :=
  (∀ af bytes len, Denotes p s af bytes len → ∀ byte ∈ bytes, byte = 0) ∧
    ∀ af literal text bytes, (af = afInet ∨ af = afInet6) → p.parse af literal = some bytes →
      s = literal ++ '/' :: text → ¬ Misread (maxMask af) text

/-- Every string is split in one way. -/
theorem exists_splitAt (s : List Char) : ∃ literal maskstr, SplitAt s literal maskstr := by
  have noSlash : '/' ∉ s.takeWhile (· ≠ '/') := by
    intro inside
    have other := List.mem_takeWhile_imp inside
    simp at other
  have whole : s.takeWhile (· ≠ '/') ++ s.dropWhile (· ≠ '/') = s := List.takeWhile_append_dropWhile
  cases rest : s.dropWhile (· ≠ '/') with
  | nil =>
    rw [rest, List.append_nil] at whole
    exact ⟨_, none, noSlash, whole.symm⟩
  | cons c text =>
    have slash : c = '/' := by
      have first := List.head?_dropWhile_not (fun c => decide (c ≠ '/')) s
      rw [rest] at first
      simpa using first
    rw [rest, slash] at whole
    exact ⟨_, some text, noSlash, whole.symm⟩

namespace SplitAt

/-- The part before the slash. -/
theorem takeWhile (split : SplitAt s literal maskstr) : s.takeWhile (· ≠ '/') = literal := by
  obtain ⟨noSlash, rfl⟩ := split
  have all : ∀ c ∈ literal, decide (c ≠ '/') = true := by
    intro c inside
    simp only [decide_eq_true_eq]
    rintro rfl
    exact noSlash inside
  cases maskstr with
  | none => exact List.takeWhile_eq_self_iff.mpr all
  | some text =>
    rw [List.takeWhile_append_of_pos all]
    simp

/-- The part from the slash on. -/
theorem dropWhile (split : SplitAt s literal maskstr) :
    s.dropWhile (· ≠ '/') = match maskstr with
      | none => []
      | some text => '/' :: text := by
  obtain ⟨noSlash, rfl⟩ := split
  have all : ∀ c ∈ literal, decide (c ≠ '/') = true := by
    intro c inside
    simp only [decide_eq_true_eq]
    rintro rfl
    exact noSlash inside
  cases maskstr with
  | none => exact List.dropWhile_eq_nil_iff.mpr all
  | some text =>
    rw [List.dropWhile_append_of_pos all]
    simp

/-- The split is the only one. -/
theorem unique (split : SplitAt s literal maskstr) {literal' : List Char}
    {maskstr' : Option (List Char)} (other : SplitAt s literal' maskstr') :
    literal = literal' ∧ maskstr = maskstr' := by
  refine ⟨split.takeWhile.symm.trans other.takeWhile, ?_⟩
  have rest := split.dropWhile.symm.trans other.dropWhile
  cases maskstr <;> cases maskstr' <;> simp_all

end SplitAt

/-- What a parsed literal is made of. -/
theorem literal_facts (family : af = afInet ∨ af = afInet6)
    (parsed : p.parse af literal = some bytes) :
    literalFamily literal = af ∧ '/' ∉ literal ∧
      ((af = afInet ∧ bytes.length = 4) ∨ (af = afInet6 ∧ bytes.length = 16)) := by
  rcases family with rfl | rfl
  · have chars := p.chars_v4 parsed
    have noColon : ':' ∉ literal := fun inside => by simpa using chars ':' inside
    refine ⟨if_neg noColon, fun inside => ?_, .inl ⟨rfl, p.length_v4 parsed⟩⟩
    simpa using chars '/' inside
  · have chars := p.chars_v6 parsed
    refine ⟨if_pos (p.colon_v6 parsed), fun inside => ?_, .inr ⟨rfl, p.length_v6 parsed⟩⟩
    simpa using chars '/' inside

/-- What a string denotes, in terms of its split. -/
theorem denotes_iff (split : SplitAt s literal maskstr) {len : Nat} :
    Denotes p s af bytes len ↔ (af = afInet ∨ af = afInet6) ∧ p.parse af literal = some bytes ∧
      match maskstr with
      | none => len = maxMask af
      | some text => Plain text len ∧ len ≤ maxMask af := by
  constructor
  · rintro ⟨family, literal', parsed, ⟨rfl, rfl⟩ | ⟨text, rfl, plain, small⟩⟩
    · have other : SplitAt s s none := ⟨(literal_facts family parsed).2.1, rfl⟩
      obtain ⟨rfl, rfl⟩ := split.unique other
      exact ⟨family, parsed, rfl⟩
    · have other : SplitAt (literal' ++ '/' :: text) literal' (some text) :=
        ⟨(literal_facts family parsed).2.1, rfl⟩
      obtain ⟨rfl, rfl⟩ := split.unique other
      exact ⟨family, parsed, plain, small⟩
  · rintro ⟨family, parsed, mask⟩
    refine ⟨family, literal, parsed, ?_⟩
    cases maskstr with
    | none => exact .inl ⟨split.whole, mask⟩
    | some text => exact .inr ⟨text, split.whole, mask⟩

/-- `onload_add_prefix` in terms of the split. -/
theorem onloadAddPrefix_split (split : SplitAt s literal maskstr) :
    onloadAddPrefix p listName s config =
      match p.parse (literalFamily literal) literal with
      | none => .ok (minusEinval, config)
      | some bytes =>
        match onloadMask maskstr (maxMask (literalFamily literal)) with
        | none => .ok (minusEinval, config)
        | some len => do
          return (0, ← onloadStorePrefix listName
            { addr := onloadBytes (literalFamily literal) len bytes } config) := by
  have range : ((maxMask (literalFamily literal) : Nat) : Int) =
      if literalFamily literal = afInet then 32 else 128 := by
    unfold maxMask
    split <;> rfl
  unfold onloadAddPrefix
  rw [range]
  simp only [split.takeWhile, split.dropWhile]
  cases maskstr <;> rfl

/-- A prefix with an acceptable mask is stored. -/
theorem onloadAddPrefix_stores (split : SplitAt s literal maskstr)
    (parsed : p.parse (literalFamily literal) literal = some bytes) {len : UInt8}
    (mask : onloadMask maskstr (maxMask (literalFamily literal)) = some len)
    {ids : List PrefixListId} {members : PrefixListId → List PrefixEntryId}
    (linked : config.Linked ids members) :
    ∃ config' ids' members', onloadAddPrefix p listName s config = .ok (0, config') ∧
      config'.Linked ids' members' ∧ config'.contents = appendPrefix listName
        (onloadBytes (literalFamily literal) len bytes) config.contents := by
  obtain ⟨config', ids', members', stored, linked', contents⟩ := linked.store listName
    (onloadBytes (literalFamily literal) len bytes)
  refine ⟨config', ids', members', ?_, linked', contents⟩
  rw [onloadAddPrefix_split split, parsed]
  simp only [mask, stored]
  rfl

/-- A string whose literal or mask is not acceptable is rejected. -/
theorem onloadAddPrefix_rejects (split : SplitAt s literal maskstr)
    (bad : p.parse (literalFamily literal) literal = none ∨
      onloadMask maskstr (maxMask (literalFamily literal)) = none) :
    onloadAddPrefix p listName s config = .ok (minusEinval, config) := by
  rw [onloadAddPrefix_split split]
  cases parsed : p.parse (literalFamily literal) literal with
  | none => rfl
  | some bytes =>
    rcases bad with unparsed | mask
    · rw [parsed] at unparsed
      cases unparsed
    · simp only [mask]

/-- The address that is appended can be told from the contents. -/
theorem appendPrefix_injective {contents : List (List Char × List Bytes)} {addr addr' : Bytes}
    (same : appendPrefix listName addr contents = appendPrefix listName addr' contents) :
    addr = addr' := by
  induction contents with
  | nil => simpa [appendPrefix] using same
  | cons list rest ih =>
    unfold appendPrefix at same
    split at same
    · simpa using same
    · exact ih (List.cons.inj same).2

/-- The configurations that calls of `onload_add_prefix` lead to. -/
inductive PrefixConfig.Reached (p : InetPton) : PrefixConfig → Prop
  | init : Reached p {}
  | add {config config' : PrefixConfig} {listName origAddr : List Char} {result : Int}
      (earlier : Reached p config)
      (added : onloadAddPrefix p listName origAddr config = .ok (result, config')) :
      Reached p config'

/-- Every configuration that is reached consists of linked lists. -/
theorem PrefixConfig.Reached.linked (reached : PrefixConfig.Reached p config) :
    ∃ ids members, config.Linked ids members := by
  induction reached with
  | init => exact ⟨[], _, .init⟩
  | @add config config' listName origAddr result earlier added ih =>
    obtain ⟨ids, members, linked⟩ := ih
    obtain ⟨literal, maskstr, split⟩ := exists_splitAt origAddr
    by_cases bad : p.parse (literalFamily literal) literal = none ∨
        onloadMask maskstr (maxMask (literalFamily literal)) = none
    · rw [onloadAddPrefix_rejects split bad] at added
      cases added
      exact ⟨ids, members, linked⟩
    · obtain ⟨parsed, mask⟩ := not_or.mp bad
      obtain ⟨bytes, parsed⟩ := Option.ne_none_iff_exists'.mp parsed
      obtain ⟨len, mask⟩ := Option.ne_none_iff_exists'.mp mask
      obtain ⟨stored, ids', members', ran, linked', -⟩ :=
        onloadAddPrefix_stores split parsed mask linked
      rw [ran] at added
      cases added
      exact ⟨ids', members', linked'⟩

/-- A string denotes one address and length, and its mask is read as that length. -/
theorem denotes_mask (split : SplitAt s literal maskstr) {len : Nat}
    (denotes : Denotes p s af bytes len) :
    onloadMask maskstr (maxMask af) = some (UInt8.ofNat len) ∧
      ∀ af' bytes' len', Denotes p s af' bytes' len' → af' = af ∧ bytes' = bytes ∧ len' = len := by
  obtain ⟨family, parsed, mask⟩ := (denotes_iff split).mp denotes
  refine ⟨?_, fun af' bytes' len' denotes' => ?_⟩
  · cases maskstr with
    | none =>
      rw [mask]
      rfl
    | some text =>
      refine onloadMask_plain mask.1 mask.2 ?_
      unfold maxMask
      split <;> omega
  · obtain ⟨family', parsed', mask'⟩ := (denotes_iff split).mp denotes'
    have same : af' = af :=
      (literal_facts family' parsed').1.symm.trans (literal_facts family parsed).1
    rw [same] at parsed' mask'
    refine ⟨same, Option.some.inj (parsed'.symm.trans parsed), ?_⟩
    cases maskstr with
    | none => exact mask'.trans mask.symm
    | some text => exact mask'.1.2.2.symm.trans mask.1.2.2

/-- A prefix is parsed as it should be exactly if its address is zero. -/
theorem parses_denoted (split : SplitAt s literal maskstr) {len : Nat}
    (denotes : Denotes p s af bytes len) {ids : List PrefixListId}
    {members : PrefixListId → List PrefixEntryId} (linked : config.Linked ids members) :
    ParsesPrefix p listName s config ↔ ∀ byte ∈ bytes, byte = 0 := by
  obtain ⟨family, parsed, -⟩ := (denotes_iff split).mp denotes
  obtain ⟨mask, only⟩ := denotes_mask split denotes
  obtain ⟨same, -, size⟩ := literal_facts family parsed
  rw [← same] at parsed mask size
  obtain ⟨config', -, -, ran, -, contents⟩ := onloadAddPrefix_stores split parsed mask linked
  obtain ⟨built, made, layout⟩ := @built_bytes _ _ (UInt8.ofNat len) size
  have sizes : bytes.length = 4 ∨ bytes.length = 16 := size.imp And.right And.right
  rw [← onloadBytes_eq sizes, ← layout]
  rw [same] at made
  constructor
  · intro parses
    obtain ⟨built', other, made', ran', contents'⟩ := parses.1 af bytes len denotes
    rw [ran] at ran'
    cases ran'
    rw [made] at made'
    cases made'
    exact appendPrefix_injective (contents.symm.trans contents')
  · intro equal
    refine ⟨fun af' bytes' len' denotes' => ?_, fun none => absurd denotes (none af bytes len)⟩
    obtain ⟨rfl, rfl, rfl⟩ := only af' bytes' len' denotes'
    refine ⟨built, config', made, ran, ?_⟩
    rw [contents, equal]

/-- In every configuration that is reached, a string is parsed and stored as a prefix, or
rejected as none, exactly if the address it denotes is zero and its mask is not misread. -/
theorem onload_add_prefix_zero_only (p : InetPton) (config : PrefixConfig)
    (reached : PrefixConfig.Reached p config) (listName s : List Char) :
    ParsesPrefix p listName s config ↔ ZeroAndRead p s := by
  obtain ⟨ids, members, linked⟩ := reached.linked
  obtain ⟨literal, maskstr, split⟩ := exists_splitAt s
  cases parsed : p.parse (literalFamily literal) literal with
  | none =>
    -- no literal: nothing is denoted, and the string is rejected
    have undenoted : ∀ af bytes len, ¬ Denotes p s af bytes len := by
      intro af bytes len denotes
      obtain ⟨family, read, -⟩ := (denotes_iff split).mp denotes
      rw [(literal_facts family read).1, read] at parsed
      cases parsed
    constructor
    · intro _
      refine ⟨fun af bytes len denotes => absurd denotes (undenoted af bytes len), ?_⟩
      intro af literal' text bytes family read whole
      obtain ⟨same, noSlash, -⟩ := literal_facts family read
      have other : SplitAt s literal' (some text) := ⟨noSlash, whole⟩
      obtain ⟨rfl, -⟩ := split.unique other
      rw [same, read] at parsed
      cases parsed
    · intro _
      refine ⟨fun af bytes len denotes => absurd denotes (undenoted af bytes len), fun _ => ?_⟩
      exact onloadAddPrefix_rejects split (.inl parsed)
  | some bytes =>
    have family : literalFamily literal = afInet ∨ literalFamily literal = afInet6 := by
      unfold literalFamily
      split
      · exact .inr rfl
      · exact .inl rfl
    by_cases denoted : ∃ len, Denotes p s (literalFamily literal) bytes len
    · obtain ⟨len, denotes⟩ := denoted
      rw [parses_denoted split denotes linked]
      constructor
      · intro zero
        refine ⟨fun af' bytes' len' denotes' => ?_, ?_⟩
        · obtain ⟨-, rfl, -⟩ := (denotes_mask split denotes).2 af' bytes' len' denotes'
          exact zero
        · intro af literal' text bytes' family' read whole misread
          obtain ⟨same, noSlash, -⟩ := literal_facts family' read
          have other : SplitAt s literal' (some text) := ⟨noSlash, whole⟩
          obtain ⟨rfl, rfl⟩ := split.unique other
          rw [same] at denotes
          obtain ⟨-, -, plain, small⟩ := (denotes_iff split).mp denotes
          exact misread.1 ⟨len, small, plain⟩
      · exact fun condition => condition.1 _ _ _ denotes
    · -- a literal with a bad mask: the string has to be rejected
      have undenoted : ∀ af bytes' len, ¬ Denotes p s af bytes' len := by
        intro af bytes' len denotes
        obtain ⟨family', read, -⟩ := (denotes_iff split).mp denotes
        obtain ⟨rfl, -, -⟩ := literal_facts family' read
        rw [read] at parsed
        cases parsed
        exact denoted ⟨len, denotes⟩
      cases maskstr with
      | none => exact absurd ⟨_, (denotes_iff split).mpr ⟨family, parsed, rfl⟩⟩ denoted
      | some text =>
        have unplain : ¬ ∃ value ≤ maxMask (literalFamily literal), Plain text value := by
          rintro ⟨value, small, plain⟩
          exact denoted ⟨value, (denotes_iff split).mpr ⟨family, parsed, plain, small⟩⟩
        constructor
        · intro parses
          refine ⟨fun af bytes' len denotes => absurd denotes (undenoted af bytes' len), ?_⟩
          intro af literal' text' bytes' family' read whole misread
          obtain ⟨same, noSlash, -⟩ := literal_facts family' read
          have other : SplitAt s literal' (some text') := ⟨noSlash, whole⟩
          obtain ⟨rfl, maskSame⟩ := split.unique other
          cases maskSame
          rw [← same] at misread
          obtain ⟨len, mask⟩ := onloadMask_accepts.mpr (.inr misread)
          obtain ⟨config', -, -, ran, -, -⟩ := onloadAddPrefix_stores split parsed mask linked
          rw [parses.2 undenoted] at ran
          cases ran
        · intro condition
          refine ⟨fun af bytes' len denotes => absurd denotes (undenoted af bytes' len), ?_⟩
          intro _
          apply onloadAddPrefix_rejects split
          refine .inr (Option.eq_none_iff_forall_not_mem.mpr fun len mask => ?_)
          rcases onloadMask_accepts.mp ⟨len, mask⟩ with ⟨-, -, plain⟩ | misread
          · exact unplain plain
          · exact condition.2 _ literal text bytes family parsed split.whole misread

/-- The literals of one test, with their addresses. -/
def documentationLiterals : List (List Char × Bytes) :=
  [("192.0.2.0".toList, [192, 0, 2, 0]), ("0.0.0.0".toList, [0, 0, 0, 0])]

/-- A literal of the test. -/
theorem documentationLiterals_mem {literal : List Char} {bytes : Bytes}
    (found : documentationLiterals.lookup literal = some bytes) :
    bytes.length = 4 ∧ ∀ c ∈ literal, c.isDigit = true ∨ c = '.' := by
  have zero : "0.0.0.0".toList = ['0', '.', '0', '.', '0', '.', '0'] := rfl
  have chars : "192.0.2.0".toList = ['1', '9', '2', '.', '0', '.', '2', '.', '0'] := rfl
  have inside := List.lookup_eq_some_iff.mp found
  obtain ⟨before, after, split, -⟩ := inside
  have member : (literal, bytes) ∈ documentationLiterals := by
    rw [split]
    simp
  rcases List.mem_cons.mp member with same | member
  · cases same
    rw [chars]
    exact ⟨rfl, by simp⟩
  · cases List.mem_singleton.mp member
    rw [zero]
    exact ⟨rfl, by simp⟩

/-- `inet_pton` as far as the literals of one test go. -/
def documentationPton : InetPton where
  parse af literal := if af = afInet then documentationLiterals.lookup literal else none
  length_v4 parsed := (documentationLiterals_mem (by rwa [if_pos rfl] at parsed)).1
  length_v6 parsed := by cases parsed
  chars_v4 parsed := (documentationLiterals_mem (by rwa [if_pos rfl] at parsed)).2
  chars_v6 parsed := by cases parsed
  colon_v6 parsed := by cases parsed

/-- `0.0.0.0/0` is stored as the prefix that it denotes, behind an entry that stays. -/
theorem onload_add_prefix_zero_only_test :
    ∃ config config',
      onloadAddPrefix documentationPton "onload".toList "192.0.2.0/24".toList {} =
        .ok (0, config) ∧
      onloadAddPrefix documentationPton "onload".toList "0.0.0.0/0".toList config =
        .ok (0, config') ∧
      config'.contents = [("onload".toList,
        [[2, 24, 2, 0] ++ List.replicate 16 0, [2, 0] ++ List.replicate 18 0])] := by
  have split : SplitAt "0.0.0.0/0".toList "0.0.0.0".toList (some "0".toList) := ⟨by decide, rfl⟩
  have digits : ∀ c ∈ "0".toList, c.isDigit = true := by
    have chars : "0".toList = ['0'] := rfl
    rw [chars]
    simp
  have plain : Plain "0".toList 0 := ⟨by decide, digits, rfl⟩
  have denotes : Denotes documentationPton "0.0.0.0/0".toList afInet [0, 0, 0, 0] 0 :=
    (denotes_iff split).mpr ⟨.inl rfl, rfl, plain, by decide⟩
  have zero : ZeroAndRead documentationPton "0.0.0.0/0".toList := by
    refine ⟨fun af bytes len denotes' => ?_, fun af literal text bytes family read whole => ?_⟩
    · obtain ⟨family, read, -⟩ := (denotes_iff split).mp denotes'
      obtain ⟨rfl, -, -⟩ := literal_facts family read
      cases read
      simp
    · obtain ⟨-, noSlash, -⟩ := literal_facts family read
      have other : SplitAt "0.0.0.0/0".toList literal (some text) := ⟨noSlash, whole⟩
      obtain ⟨-, same⟩ := split.unique other
      cases same
      exact fun misread => misread.1 ⟨0, Nat.zero_le _, plain⟩
  obtain ⟨config, added, contents⟩ : ∃ config,
      onloadAddPrefix documentationPton "onload".toList "192.0.2.0/24".toList {} =
        .ok (0, config) ∧
      config.contents = [("onload".toList, [[2, 24, 2, 0] ++ List.replicate 16 0])] :=
    ⟨_, rfl, rfl⟩
  have reached : PrefixConfig.Reached documentationPton config := .add .init added
  obtain ⟨built, config', made, ran, appended⟩ :=
    ((onload_add_prefix_zero_only documentationPton config reached "onload".toList
      "0.0.0.0/0".toList).mpr zero).1 afInet [0, 0, 0, 0] 0 denotes
  cases made
  refine ⟨config, config', added, ran, ?_⟩
  rw [appended, contents]
  decide

/-- `192.0.2.0/24` is stored as the address `0.0.0.0`, with two bytes of it in the padding. -/
theorem onload_add_prefix_misplaces :
    (∃ config, onloadAddPrefix documentationPton "onload".toList "192.0.2.0/24".toList {} =
        .ok (0, config) ∧
      config.contents = [("onload".toList, [[2, 24, 2, 0] ++ List.replicate 16 0])]) ∧
    ¬ ParsesPrefix documentationPton "onload".toList "192.0.2.0/24".toList {} := by
  have split : SplitAt "192.0.2.0/24".toList "192.0.2.0".toList (some "24".toList) :=
    ⟨by decide, rfl⟩
  have digits : ∀ c ∈ "24".toList, c.isDigit = true := by
    have chars : "24".toList = ['2', '4'] := rfl
    rw [chars]
    simp
  have denotes : Denotes documentationPton "192.0.2.0/24".toList afInet [192, 0, 2, 0] 24 :=
    (denotes_iff split).mpr ⟨.inl rfl, rfl, ⟨by decide, digits, rfl⟩, by decide⟩
  refine ⟨⟨_, rfl, rfl⟩, fun parses => ?_⟩
  have zero := (parses_denoted split denotes .init).mp parses
  exact absurd (zero 192 List.mem_cons_self) (by decide)

end Prefix

end FlowerRoute
