import Mathlib.Data.List.Pairwise
import Mathlib.Order.Bounds.Basic
import Mathlib.Tactic.Common

/-!
# Gap search

The search of an ascending list of numbers for one that is missing. It keeps a candidate, which is
one more than the last number passed; below a minimum every number is passed. An eager search also
stops before a first number above the minimum.
-/

namespace GapSearch

/-- The candidate after the rest of the list. -/
def gap (eager : Bool) (min : Nat) : List Nat → Nat → Nat
  | [], ret => ret
  | n :: rest, ret =>
    if eager = true ∧ ret = 0 ∧ min < n then ret
    else if n = ret ∨ ret < min then gap eager min rest (n + 1)
    else ret

variable {eager : Bool} {min ret : Nat} {ns passed rest : List Nat}

/-- The search looks for the first number from the minimum on that is missing. Otherwise it begins
at the first number from there on that is in the list. -/
def FromMinimum (eager : Bool) (min : Nat) (ns : List Nat) : Prop :=
  min = 0 ∨ min - 1 ∈ ns ∨ (∀ n ∈ ns, n < min) ∨ eager = true ∧ ∀ n ∈ ns, min ≤ n

/-- Where the search begins: at the minimum, or at the first number from there on. -/
def First (eager : Bool) (min : Nat) (ns : List Nat) (first : Nat) : Prop :=
  FromMinimum eager min ns ∧ first = min ∨
    ¬ FromMinimum eager min ns ∧ IsLeast { n | n ∈ ns ∧ min ≤ n } first

/-- The search begins at one number only. -/
theorem First.unique {first first' : Nat} (here : First eager min ns first)
    (there : First eager min ns first') : first = first' := by
  rcases here with ⟨fromMinimum, rfl⟩ | ⟨later, least⟩
  · rcases there with ⟨-, same⟩ | ⟨later, -⟩
    · exact same.symm
    · exact absurd fromMinimum later
  · rcases there with ⟨fromMinimum, -⟩ | ⟨-, least'⟩
    · exact absurd fromMinimum later
    · exact least.unique least'

/-- The search begins at the minimum or behind it. -/
theorem First.le {first : Nat} (here : First eager min ns first) : min ≤ first := by
  rcases here with ⟨-, rfl⟩ | ⟨-, least⟩
  · exact Nat.le_refl _
  · exact least.1.2

/-- What the search knows after some numbers: all were below the minimum, or it has gone through a
stretch without gap since the first that was not. -/
inductive Known (eager : Bool) (min : Nat) (passed rest : List Nat) (ret : Nat) : Prop
  | below : ret ≤ min → (∀ n ∈ passed, n < ret) → (ret = 0 ∨ ret - 1 ∈ passed) →
      Known eager min passed rest ret
  | inside (low : Nat) : min ≤ low → low < ret → (∀ n, low ≤ n → n < ret → n ∈ passed) →
      (∀ n, min ≤ n → n < low → n ∉ passed ++ rest) → (∀ n ∈ passed, n < ret) →
      (low = min ∨ ¬ FromMinimum eager min (passed ++ rest)) → Known eager min passed rest ret

/-- What the result of a search is: nothing above the minimum, which is missing, or the end of a
stretch without gap. -/
inductive Found (eager : Bool) (min : Nat) (ns : List Nat) (result : Nat) : Prop
  | minimum : result ≤ min → min ∉ ns → FromMinimum eager min ns → Found eager min ns result
  | stretch (low : Nat) : min ≤ low → low < result → (∀ n, low ≤ n → n < result → n ∈ ns) →
      (∀ n, min ≤ n → n < low → n ∉ ns) → result ∉ ns →
      (low = min ∨ ¬ FromMinimum eager min ns) → Found eager min ns result

/-- The search of the rest of an ascending list. -/
theorem gap_found (ascending : (passed ++ rest).Pairwise (· < ·))
    (known : Known eager min passed rest ret) :
    Found eager min (passed ++ rest) (gap eager min rest ret) := by
  induction rest generalizing passed ret with
  | nil =>
    unfold gap
    rw [List.append_nil] at ascending ⊢
    cases known with
    | below least all _ =>
      have small : ∀ n ∈ passed, n < min := fun n inside => Nat.lt_of_lt_of_le (all n inside) least
      exact .minimum least (fun inside => Nat.lt_irrefl _ (small min inside)) (.inr (.inr (.inl small)))
    | inside low least less stretch missing max start =>
      rw [List.append_nil] at missing start
      exact .stretch low least less stretch missing
        (fun inside => Nat.lt_irrefl _ (max ret inside)) start
  | cons n rest ih =>
    have order := ascending
    rw [List.pairwise_append, List.pairwise_cons] at order
    obtain ⟨-, ⟨later, -⟩, earlier⟩ := order
    have before : ∀ m ∈ passed, m < n := fun m inside => earlier m inside n List.mem_cons_self
    have shift : passed ++ n :: rest = (passed ++ [n]) ++ rest := by simp
    -- what is not below the next number has not been passed
    have position : ∀ m ∈ passed ++ n :: rest, m ∈ passed ∨ n ≤ m := fun m inside => by
      rcases List.mem_append.mp inside with left | right
      · exact .inl left
      · rcases List.mem_cons.mp right with same | after
        · exact .inr (Nat.le_of_eq same.symm)
        · exact .inr (Nat.le_of_lt (later m after))
    unfold gap
    split
    · next stop =>
      obtain ⟨isEager, zero, above⟩ := stop
      cases known with
      | below _ all _ =>
        have none : ∀ m ∈ passed ++ n :: rest, n ≤ m := fun m inside =>
          (position m inside).resolve_left fun left => by
            have := all m left
            omega
        refine .minimum (by omega) (fun inside => ?_) (.inr (.inr (.inr ⟨isEager, ?_⟩)))
        · have := none min inside
          omega
        · intro m inside
          have := none m inside
          omega
      | inside low _ less _ _ _ _ => omega
    · next goes =>
      split
      · next moves =>
        rw [shift] at ascending ⊢
        refine ih ascending ?_
        cases known with
        | below least all last =>
          by_cases small : n < min
          · refine .below small (fun m inside => ?_) (.inr (by simp))
            rcases List.mem_append.mp inside with left | right
            · exact Nat.lt_succ_of_lt (before m left)
            · rw [List.mem_singleton.mp right]
              exact Nat.lt_succ_self n
          · refine .inside n (Nat.not_lt.mp small) (Nat.lt_succ_self n) (fun m low high => ?_)
              (fun m low high inside => ?_) (fun m inside => ?_) ?_
            · have same : m = n := by omega
              simp [same]
            · rw [← shift] at inside
              rcases position m inside with left | right
              · have := all m left
                omega
              · omega
            · rcases List.mem_append.mp inside with left | right
              · exact Nat.lt_succ_of_lt (before m left)
              · rw [List.mem_singleton.mp right]
                exact Nat.lt_succ_self n
            · by_cases same : n = min
              · exact .inl same
              · -- the search has moved past the minimum, so the number before it is missing
                refine .inr fun fromMinimum => ?_
                rw [← shift] at fromMinimum
                rcases fromMinimum with zero | last | below | ⟨isEager, above⟩
                · omega
                · rcases position _ last with left | right
                  · have := all _ left
                    omega
                  · omega
                · have := below n (by simp)
                  omega
                · rcases last with zero | passed
                  · exact goes ⟨isEager, zero, by omega⟩
                  · have := above _ (List.mem_append_left _ passed)
                    have := all _ passed
                    omega
        | inside low least less stretch missing max start =>
          have same : n = ret := moves.resolve_right (by omega)
          subst same
          rw [shift] at missing start
          refine .inside low least (Nat.lt_succ_of_lt less) (fun m first high => ?_) missing
            (fun m inside => ?_) start
          · by_cases last : m = n
            · simp [last]
            · exact List.mem_append_left _ (stretch m first (by omega))
          · rcases List.mem_append.mp inside with left | right
            · exact Nat.lt_succ_of_lt (max m left)
            · rw [List.mem_singleton.mp right]
              exact Nat.lt_succ_self n
      · next stays =>
        have differs : n ≠ ret := fun same => stays (.inl same)
        have reached : min ≤ ret := Nat.not_lt.mp fun less => stays (.inr less)
        cases known with
        | below least all last =>
          have same : ret = min := by omega
          subst same
          refine .minimum (Nat.le_refl _) (fun inside => ?_) ?_
          · rcases position ret inside with left | right
            · exact Nat.lt_irrefl _ (all ret left)
            · rcases last with zero | passed
              · omega
              · have := before _ passed
                omega
          · exact last.imp_right fun passed => .inl (List.mem_append_left _ passed)
        | inside low least less stretch missing max start =>
          refine .stretch low least less (fun m first high => ?_) missing (fun inside => ?_) start
          · exact List.mem_append_left _ (stretch m first high)
          · rcases position ret inside with left | right
            · exact Nat.lt_irrefl _ (max ret left)
            · have := before (ret - 1) (stretch (ret - 1) (by omega) (by omega))
              omega

/-- The search of an ascending list. -/
theorem found (ascending : ns.Pairwise (· < ·)) : Found eager min ns (gap eager min ns 0) :=
  @gap_found eager min 0 [] ns ascending
    (.below (Nat.zero_le _) (fun _ inside => absurd inside List.not_mem_nil) (.inl rfl))

/-- The result stays below a bound on the numbers. -/
theorem gap_le {bound : Nat} (small : ∀ n ∈ ns, n < bound) (start : ret ≤ bound) :
    gap eager min ns ret ≤ bound := by
  induction ns generalizing ret with
  | nil => exact start
  | cons n rest ih =>
    unfold gap
    split
    · exact start
    · split
      · exact ih (fun m inside => small m (List.mem_cons_of_mem _ inside))
          (small n List.mem_cons_self)
      · exact start

namespace Found

variable {result : Nat}

/-- From the minimum on, the result is missing. -/
theorem missing (here : Found eager min ns result) :
    (if result < min then min else result) ∉ ns := by
  cases here with
  | minimum least missing _ =>
    split
    · exact missing
    · have same : result = min := by omega
      rw [same]
      exact missing
  | stretch low least less _ _ missing _ =>
    rw [if_neg (by omega)]
    exact missing

/-- A result beyond a bound below which something is missing leaves the minimum missing. -/
theorem beyond (here : Found eager min ns result) {n : Nat} (least : min ≤ n) (less : n < result)
    (absent : n ∉ ns) : min ∉ ns := by
  cases here with
  | minimum _ missing _ => exact missing
  | stretch low _ _ stretch missing _ _ =>
    by_cases before : n < low
    · exact missing min (Nat.le_refl _) (by omega)
    · exact absurd (stretch n (by omega) less) absent

/-- The result is the first number missing from where the search begins. -/
theorem first (here : Found eager min ns result) : ∃ first, First eager min ns first ∧
    IsLeast { n | first ≤ n ∧ n ∉ ns } (if result < min then min else result) := by
  have missing := here.missing
  cases here with
  | minimum least absent fromMinimum =>
    have clipped : (if result < min then min else result) = min := by
      split <;> omega
    rw [clipped]
    exact ⟨min, .inl ⟨fromMinimum, rfl⟩, ⟨Nat.le_refl _, absent⟩, fun n above => above.1⟩
  | stretch low least less stretch none _ start =>
    rw [if_neg (show ¬ result < min by omega)] at missing ⊢
    have inside : low ∈ ns := stretch low (Nat.le_refl _) less
    refine ⟨low, ?_, ⟨Nat.le_of_lt less, missing⟩, fun n above => ?_⟩
    · by_cases fromMinimum : FromMinimum eager min ns
      · exact .inl ⟨fromMinimum, start.resolve_right fun later => later fromMinimum⟩
      · refine .inr ⟨fromMinimum, ⟨inside, least⟩, fun n above => ?_⟩
        by_contra before
        exact none n above.2 (Nat.not_le.mp before) above.1
    · by_contra before
      exact above.2 (stretch n above.1 (Nat.not_le.mp before))

/-- Where all numbers are above a positive minimum, an eager search finds the lowest gap. -/
theorem lowest (here : Found true min ns result) (above : ∀ n ∈ ns, min ≤ n) {n : Nat}
    (least : min ≤ n) (less : n < result) : n ∈ ns := by
  cases here with
  | minimum small _ _ => omega
  | stretch low _ _ stretch _ _ start =>
    have same : low = min := start.resolve_right fun later => later (.inr (.inr (.inr ⟨rfl, above⟩)))
    exact stretch n (by omega) less

end Found

end GapSearch
