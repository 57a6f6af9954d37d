import Mathlib.Order.Basic

/-!
# Outcomes of faulting procedures

A procedure over explicit state returns a value or stops at a fault. `Ends` states what
holds of the value and which faults are admitted, so one rule serves partial correctness
(every fault admitted) and the absence of faults (none admitted).
-/

namespace Outcome

variable {ε α β : Type}

/-- The result meets `post`, or it is a fault that `fault` admits. -/
def Ends (fault : ε → Prop) (post : α → Prop) : Except ε α → Prop
  | .ok value => post value
  | .error error => fault error

variable {fault : ε → Prop} {post : α → Prop}

/-- A returned value ends as its postcondition says. -/
@[simp] theorem ends_ok (value : α) : Ends fault post (.ok value) ↔ post value := Iff.rfl

/-- A pure result ends as its postcondition says. -/
@[simp] theorem ends_pure (value : α) :
    Ends fault post (pure value : Except ε α) ↔ post value := Iff.rfl

/-- A fault ends well exactly when it is admitted. -/
@[simp] theorem ends_error (error : ε) :
    Ends fault post (.error error : Except ε α) ↔ fault error := Iff.rfl

/-- A returned value goes on. -/
theorem ok_bind (value : α) (next : α → Except ε β) :
    ((.ok value : Except ε α) >>= next) = next value := rfl

/-- Sequencing hands the first value's postcondition to the second procedure. -/
theorem Ends.bind {first : Except ε α} {next : α → Except ε β} {middle : α → Prop}
    {last : β → Prop} (head : Ends fault middle first)
    (tail : ∀ value, middle value → Ends fault last (next value)) :
    Ends fault last (first >>= next) := by
  cases first with
  | ok value => exact tail value head
  | error error => exact head

/-- A postcondition may be weakened. -/
theorem Ends.mono {weaker : α → Prop} {result : Except ε α} (ends : Ends fault post result)
    (weaken : ∀ value, post value → weaker value) : Ends fault weaker result := by
  cases result with
  | ok value => exact weaken value ends
  | error error => exact ends

/-- The postcondition of a result that did return. -/
theorem Ends.of_ok {result : Except ε α} {value : α} (ends : Ends fault post result)
    (returned : result = .ok value) : post value := by
  subst returned
  exact ends

/-- With no fault admitted the procedure returns a value. -/
theorem Ends.returns {result : Except ε α} (ends : Ends (fun _ => False) post result) :
    ∃ value, result = .ok value ∧ post value := by
  cases result with
  | ok value => exact ⟨value, rfl, ends⟩
  | error error => exact ends.elim

/-- A sequenced result that returned has a returned first part. -/
theorem bind_returned {first : Except ε α} {next : α → Except ε β} {last : β}
    (returned : (first >>= next) = .ok last) :
    ∃ value, first = .ok value ∧ next value = .ok last := by
  cases first with
  | ok value => exact ⟨value, rfl, returned⟩
  | error error => cases returned

/-- Two sequences that go on alike from every value that the first part returns. -/
theorem bind_congr_ok {first : Except ε α} {next other : α → Except ε β}
    (same : ∀ value, first = .ok value → next value = other value) :
    (first >>= next) = (first >>= other) := by
  cases first with
  | ok value => exact same value rfl
  | error error => rfl

/-- Stop at `error` unless the condition holds. -/
def require (error : ε) (condition : Prop) [Decidable condition] : Except ε Unit :=
  if condition then .ok () else .error error

/-- The condition of a check that was passed. -/
theorem of_require {error : ε} {condition : Prop} [Decidable condition] {value : Unit}
    (passed : require error condition = .ok value) : condition := by
  by_contra fails
  rw [require, if_neg fails] at passed
  cases passed

/-- A condition that holds never stops the procedure. -/
theorem ends_require {error : ε} {condition : Prop} [Decidable condition] {last : β → Prop}
    {next : Unit → Except ε β} (holds : condition) (tail : Ends fault last (next ())) :
    Ends fault last (require error condition >>= next) := by
  rw [require, if_pos holds]
  exact tail

/-- Where the fault is admitted, what follows the check may use its condition. -/
theorem ends_require_admitted {error : ε} {condition : Prop} [Decidable condition]
    {last : β → Prop} {next : Unit → Except ε β} (admitted : fault error)
    (tail : condition → Ends fault last (next ())) :
    Ends fault last (require error condition >>= next) := by
  by_cases holds : condition
  · exact ends_require holds (tail holds)
  · rw [require, if_neg holds]
    exact admitted

/-- A loop over a list keeps an invariant that each body keeps. -/
theorem ends_foldlM {invariant : β → Prop} {body : β → α → Except ε β} (items : List α)
    (start : β) (initially : invariant start)
    (step : ∀ item ∈ items, ∀ state, invariant state →
      Ends fault invariant (body state item)) :
    Ends fault invariant (items.foldlM body start) := by
  induction items generalizing start with
  | nil => exact initially
  | cons item items ih =>
    rw [List.foldlM_cons]
    refine (step item List.mem_cons_self start initially).bind fun state kept => ?_
    exact ih state kept fun later member => step later (List.mem_cons_of_mem _ member)

/-- A loop over a list with an invariant of the items already passed. -/
theorem ends_foldlM_prefix {invariant : List α → β → Prop} {body : β → α → Except ε β}
    (items : List α) (start : β) (initially : invariant [] start)
    (step : ∀ passed item rest, items = passed ++ item :: rest → ∀ state,
      invariant passed state → Ends fault (invariant (passed ++ [item])) (body state item)) :
    Ends fault (invariant items) (items.foldlM body start) := by
  suffices general : ∀ rest passed state, items = passed ++ rest → invariant passed state →
      Ends fault (invariant items) (rest.foldlM body state) from
    general items [] start rfl initially
  intro rest
  induction rest with
  | nil =>
    intro passed state split holds
    rw [List.append_nil] at split
    subst split
    exact holds
  | cons item rest ih =>
    intro passed state split holds
    rw [List.foldlM_cons]
    refine (step passed item rest split state holds).bind fun next kept => ?_
    exact ih (passed ++ [item]) next (by simp [split]) kept

section Known

/-- A result whose faults are admitted ends as every returned value does. -/
theorem ends_of {result : Except ε α} (faults : Ends fault (fun _ => True) result)
    (returns : ∀ value, result = .ok value → post value) : Ends fault post result := by
  cases result with
  | ok value => exact returns value rfl
  | error error => exact faults

/-- Where all that is known of the first part is that its faults are admitted. -/
theorem ends_bind_of {first : Except ε α} {next : α → Except ε β} {last : β → Prop}
    (faults : Ends fault (fun _ => True) first)
    (tail : ∀ value, first = .ok value → Ends fault last (next value)) :
    Ends fault last (first >>= next) := by
  cases first with
  | ok value => exact tail value rfl
  | error error => exact faults

/-- The faults of a sequence are those of its parts. -/
theorem faults_bind {first : Except ε α} {next : α → Except ε β}
    (head : Ends fault (fun _ => True) first)
    (tail : ∀ value, Ends fault (fun _ => True) (next value)) :
    Ends fault (fun _ => True) (first >>= next) :=
  ends_bind_of head fun value _ => tail value

/-- A check stops at its own fault only. -/
theorem faults_require {error : ε} {condition : Prop} [Decidable condition]
    (admitted : fault error) : Ends fault (fun _ => True) (require error condition) := by
  rw [require]
  split
  · trivial
  · exact admitted

end Known

section Partial

/-- Partial correctness: a value that is returned meets `post`. -/
abbrev Returns (post : α → Prop) (result : Except ε α) : Prop := Ends (fun _ => True) post result

/-- Any fact about every returned value. -/
theorem returns_iff {result : Except ε α} :
    Returns post result ↔ ∀ value, result = .ok value → post value := by
  cases result with
  | ok value => exact ⟨fun holds _ same => Except.ok.inj same ▸ holds, fun holds => holds value rfl⟩
  | error error => exact ⟨fun _ _ same => (nomatch same), fun _ => trivial⟩

/-- Where nothing is known of the first part but that it returned its value. -/
theorem returns_bind {first : Except ε α} {next : α → Except ε β} {last : β → Prop}
    (tail : ∀ value, first = .ok value → Returns last (next value)) :
    Returns last (first >>= next) := by
  cases first with
  | ok value => exact tail value rfl
  | error error => trivial

/-- After a check its condition holds. -/
theorem returns_require {error : ε} {condition : Prop} [Decidable condition] {last : β → Prop}
    {next : Unit → Except ε β} (tail : condition → Returns last (next ())) :
    Returns last (require error condition >>= next) :=
  ends_require_admitted trivial tail

end Partial

section Maps

variable {γ δ : Type} {see : α → β} {see' : γ → δ}

/-- The second result is the first one, its value seen through a function. -/
def Maps (see : α → β) (result : Except ε α) (seen : Except ε β) : Prop := seen = result.map see

theorem Maps.ok (value : α) : Maps see (.ok value : Except ε α) (.ok (see value)) := rfl

theorem Maps.error (error : ε) : Maps see (.error error) (.error error) := rfl

/-- Sequencing hands on what is seen. -/
theorem Maps.bind {first : Except ε α} {first' : Except ε β} {next : α → Except ε γ}
    {next' : β → Except ε δ} (head : Maps see first first')
    (tail : ∀ value, Maps see' (next value) (next' (see value))) :
    Maps see' (first >>= next) (first' >>= next') := by
  rw [Maps] at head
  subst head
  cases first with
  | ok value => exact tail value
  | error error => rfl

/-- A first part that both have in common. -/
theorem Maps.same {first : Except ε α} {next : α → Except ε γ} {next' : α → Except ε δ}
    (tail : ∀ value, Maps see' (next value) (next' value)) :
    Maps see' (first >>= next) (first >>= next') := by
  cases first with
  | ok value => exact tail value
  | error error => rfl

/-- A test that both decide alike. -/
theorem Maps.ite {condition condition' : Prop} [Decidable condition] [Decidable condition']
    {yes no : Except ε α} {yes' no' : Except ε β} (alike : condition' ↔ condition)
    (left : Maps see yes yes') (right : Maps see no no') :
    Maps see (if condition then yes else no) (if condition' then yes' else no') := by
  by_cases holds : condition
  · rw [if_pos holds, if_pos (alike.mpr holds)]
    exact left
  · rw [if_neg holds, if_neg fun other => holds (alike.mp other)]
    exact right

/-- A loop over a list. -/
theorem Maps.foldlM {body : α → γ → Except ε α} {body' : β → γ → Except ε β}
    (step : ∀ state item, Maps see (body state item) (body' (see state) item)) (items : List γ)
    (state : α) : Maps see (items.foldlM body state) (items.foldlM body' (see state)) := by
  induction items generalizing state with
  | nil => exact .ok state
  | cons item items ih =>
    rw [List.foldlM_cons, List.foldlM_cons]
    exact (step state item).bind ih

end Maps

end Outcome
