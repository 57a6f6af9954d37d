import Mathlib.Data.List.Basic
import Mathlib.Data.List.Nodup
import Mathlib.Data.List.Perm.Subperm

/-!
# Singly linked lists

Cells by identifier, each with the identifier of the next one or none. `Linked next start items`
says that from `start` exactly `items` are visited before the list ends. Such a list never visits
a cell twice, depends on no cell outside it, grows at its end by one write to its last cell, and
loses a cell by one write to the cell before it.
-/

namespace LinkedList

variable {ι : Type} {next next' : ι → Option ι} {start : Option ι} {items : List ι}

/-- From `start` the list visits `items` and ends. -/
def Linked (next : ι → Option ι) : Option ι → List ι → Prop
  | start, [] => start = none
  | start, i :: rest => start = some i ∧ Linked next (next i) rest

/-- The cells visited in at most `count` steps. -/
def walk (next : ι → Option ι) : Nat → Option ι → List ι
  | 0, _ => []
  | _ + 1, none => []
  | count + 1, some i => i :: walk next count (next i)

namespace Linked

/-- A walk with steps enough visits the list. -/
theorem walk_eq (linked : Linked next start items) {count : Nat} (enough : items.length ≤ count) :
    walk next count start = items := by
  induction items generalizing start count with
  | nil =>
    have ended : start = none := linked
    rw [ended]
    cases count <;> rfl
  | cons i rest ih =>
    obtain ⟨rfl, tail⟩ := linked
    cases count with
    | zero => simp at enough
    | succ count =>
      rw [walk, ih tail (by simpa using enough)]

/-- A list is the only one from its start. -/
theorem unique (linked : Linked next start items) {others : List ι}
    (other : Linked next start others) : items = others := by
  rw [← linked.walk_eq (Nat.le_max_left items.length others.length)]
  exact other.walk_eq (Nat.le_max_right ..)

/-- The list from a cell it visits. -/
theorem suffix {before after : List ι} (linked : Linked next start (before ++ after)) :
    ∃ middle, Linked next middle after ∧
      middle = if before = [] then start else before.getLast?.bind next := by
  induction before generalizing start with
  | nil => exact ⟨start, linked, rfl⟩
  | cons i before ih =>
    obtain ⟨-, tail⟩ := linked
    obtain ⟨middle, suffix, rfl⟩ := ih tail
    refine ⟨_, suffix, ?_⟩
    cases before with
    | nil => simp
    | cons j before => simp [List.getLast?_cons_cons]

/-- No cell is visited twice. -/
theorem nodup (linked : Linked next start items) : items.Nodup := by
  induction items generalizing start with
  | nil => exact List.nodup_nil
  | cons i rest ih =>
    obtain ⟨-, tail⟩ := linked
    refine List.nodup_cons.mpr ⟨fun again => ?_, ih tail⟩
    -- a second visit would be followed by the same cells, and so by a third one
    obtain ⟨before, after, rest_eq⟩ := List.append_of_mem again
    have copy : Linked next (some i) (i :: after) := by
      rw [rest_eq] at tail
      obtain ⟨middle, suffix, -⟩ := tail.suffix
      have here : middle = some i := suffix.1
      rwa [here] at suffix
    have same := copy.2.unique tail
    have longer : rest.length = before.length + (after.length + 1) := by
      rw [rest_eq, List.length_append, List.length_cons]
    rw [same] at longer
    omega

/-- Only the cells of the list matter. -/
theorem congr (linked : Linked next start items) (agree : ∀ i ∈ items, next' i = next i) :
    Linked next' start items := by
  induction items generalizing start with
  | nil => exact linked
  | cons i rest ih =>
    obtain ⟨here, tail⟩ := linked
    refine ⟨here, ?_⟩
    rw [agree i List.mem_cons_self]
    exact ih tail fun j inside => agree j (List.mem_cons_of_mem _ inside)

/-- A new last cell: the old last one, or the start of an empty list, points to it. -/
theorem append (linked : Linked next start items) {new : ι} (ends : next' new = none)
    (last : ∀ i, items.getLast? = some i → next' i = some new)
    (others : ∀ i ∈ items, items.getLast? ≠ some i → next' i = next i) :
    Linked next' (if items = [] then some new else start) (items ++ [new]) := by
  induction items generalizing start with
  | nil => exact ⟨rfl, ends⟩
  | cons i rest ih =>
    obtain ⟨rfl, tail⟩ := linked
    refine ⟨by simp, ?_⟩
    have position : i ∉ rest := (List.nodup_cons.mp (nodup ⟨rfl, tail⟩)).1
    cases rest with
    | nil =>
      rw [last i rfl]
      exact ⟨rfl, ends⟩
    | cons j rest =>
      have same : next' i = next i := by
        apply others i List.mem_cons_self
        rw [List.getLast?_cons_cons]
        intro atEnd
        exact position (List.mem_of_getLast? atEnd)
      rw [same]
      have grown := ih tail (fun k atEnd => last k (by rwa [List.getLast?_cons_cons]))
        fun k inside inner => others k (List.mem_cons_of_mem _ inside) (by
          rwa [List.getLast?_cons_cons])
      rwa [if_neg (List.cons_ne_nil j rest)] at grown

/-- One cell less: the cell before it, or the start of the list, points past it. -/
theorem remove {before after : List ι} {removed : ι}
    (linked : Linked next start (before ++ removed :: after))
    (last : ∀ i, before.getLast? = some i → next' i = next removed)
    (others : ∀ i ∈ before ++ after, before.getLast? ≠ some i → next' i = next i) :
    Linked next' (if before = [] then next removed else start) (before ++ after) := by
  induction before generalizing start with
  | nil =>
    rw [if_pos rfl]
    apply linked.2.congr
    intro i inside
    exact others i inside (by simp)
  | cons i rest ih =>
    have position : i ∉ rest ++ removed :: after := (List.nodup_cons.mp linked.nodup).1
    obtain ⟨rfl, tail⟩ := linked
    rw [if_neg (List.cons_ne_nil i rest)]
    refine ⟨rfl, ?_⟩
    cases rest with
    | nil =>
      rw [last i rfl]
      apply tail.2.congr
      intro j inside
      apply others j (List.mem_cons_of_mem _ inside)
      intro atEnd
      have same : i = j := Option.some.inj atEnd
      exact position (same ▸ List.mem_cons_of_mem _ inside)
    | cons j rest =>
      have same : next' i = next i := by
        apply others i List.mem_cons_self
        rw [List.getLast?_cons_cons]
        intro atEnd
        exact position (List.mem_append_left _ (List.mem_of_getLast? atEnd))
      rw [same]
      have shorter := ih tail (fun k atEnd => last k (by rwa [List.getLast?_cons_cons]))
        fun k inside inner => others k (List.mem_cons_of_mem _ inside) (by
          rwa [List.getLast?_cons_cons])
      rwa [if_neg (List.cons_ne_nil j rest)] at shorter

/-- A list of numbered cells is no longer than there are numbers. -/
theorem length_le {next : Nat → Option Nat} {start : Option Nat} {items : List Nat} {bound : Nat}
    (linked : Linked next start items) (below : ∀ i ∈ items, i < bound) :
    items.length ≤ bound := by
  have inside : items ⊆ List.range bound := fun i member => List.mem_range.mpr (below i member)
  have size := (List.subperm_of_subset linked.nodup inside).length_le
  rwa [List.length_range] at size

end Linked

end LinkedList
