import Mathlib.Data.List.Forall2

/-!
# Postconditions of fallible computations

`Ensures result post raises` says that a computation in `Except` either returns a
value satisfying `post` or fails with an error satisfying `raises`. The rules
below compose such statements along `bind`, so that a function is specified once
and its callers use the specification.
-/

namespace OpenFga

open List

variable {ε α β : Type} {result : Except ε α} {next convert : α → Except ε β} {value : α}
  {items : List α} {write : α → β} {post' : α → Prop} {raises' : ε → Prop} {final : β → Prop}
  {failure : ε}

/-- The value of a lookup, or an error when it finds nothing. -/
def orError (found : Option α) (failure : ε) : Except ε α :=
  match found with
  | some value => .ok value
  | none => .error failure

@[simp] theorem orError_some (value : α) (failure : ε) :
    orError (some value) failure = .ok value := rfl

@[simp] theorem orError_none (failure : ε) :
    (orError none failure : Except ε α) = .error failure := rfl

/-- What a returned value of a sequence says of its parts. -/
theorem bind_eq_ok {value : β} :
    result >>= next = .ok value ↔ ∃ first, result = .ok first ∧ next first = .ok value := by
  cases result with
  | ok | error => simp [bind, Except.bind]

/-- Renaming the error keeps the returned values. -/
theorem mapError_eq_ok {ε' : Type} {rename : ε → ε'} :
    result.mapError rename = .ok value ↔ result = .ok value := by
  cases result with
  | ok | error => simp [Except.mapError]

theorem map_eq_ok {wrap : α → β} {value : β} :
    result.map wrap = .ok value ↔ ∃ first, result = .ok first ∧ wrap first = value := by
  cases result with
  | ok | error => simp [Except.map]

theorem toOption_eq_some : result.toOption = some value ↔ result = .ok value := by
  cases result with
  | ok | error => simp [Except.toOption]

section Guards

variable {test : Prop} [Decidable test] {failure : ε}

/-- A returned value has passed the guards before it. -/
theorem guard_eq_ok :
    (if test then .error failure else result) = .ok value ↔ ¬ test ∧ result = .ok value := by
  split <;> simp [*]

theorem require_eq_ok :
    (if test then result else .error failure) = .ok value ↔ test ∧ result = .ok value := by
  split <;> simp [*]

end Guards

section Lists

variable {γ : Type}

/-- A list is converted item by item. -/
theorem mapM_map_iff {convert : β → Except ε γ} {value : α → γ} :
    (items.map write).mapM convert = .ok (items.map value) ↔
      ∀ item ∈ items, convert (write item) = .ok (value item) := by
  induction items with
  | nil => exact ⟨fun _ => forall_mem_nil _, fun _ => rfl⟩
  | cons item items ih =>
    rw [map_cons, mapM_cons, forall_mem_cons, ← ih]
    constructor
    · intro made
      obtain ⟨first, head, made⟩ := bind_eq_ok.mp made
      obtain ⟨rest, tail, made⟩ := bind_eq_ok.mp made
      cases made
      exact ⟨head, tail⟩
    · rintro ⟨head, tail⟩
      rw [head, tail]
      rfl

/-- Reading a list back item by item. -/
theorem mapM_restore_iff {restore : β → Except ε α} : (items.map write).mapM restore = .ok items ↔
      ∀ item ∈ items, restore (write item) = .ok item := by
  rw [← mapM_map_iff, map_id']

theorem mapM_ok {value : α → β} (each : ∀ item ∈ items, convert item = .ok (value item)) :
    items.mapM convert = .ok (items.map value) := by
  rw [← mapM_map_iff.mpr each, map_id']

/-- If every item can be converted, the conversion gives what the items give. -/
theorem mapM_eq_filterMap (each : ∀ item ∈ items, ∃ value, convert item = .ok value) :
    items.mapM convert = .ok (items.filterMap fun item => (convert item).toOption) := by
  induction items with
  | nil => rfl
  | cons item items ih =>
    obtain ⟨⟨value, made⟩, rest⟩ := forall_mem_cons.mp each
    rw [mapM_cons, made, ih rest, filterMap_cons_some (b := value) (by rw [made]; rfl)]
    rfl

/-- What a conversion of a list makes, it makes of some item. -/
theorem mem_of_mapM : ∀ {converted : List β}, items.mapM convert = .ok converted →
      ∀ value ∈ converted, ∃ item ∈ items, convert item = .ok value := by
  induction items with
  | nil =>
    intro converted made
    cases made
    exact forall_mem_nil _
  | cons item items ih =>
    intro converted made
    rw [mapM_cons] at made
    obtain ⟨first, head, made⟩ := bind_eq_ok.mp made
    obtain ⟨rest, tail, made⟩ := bind_eq_ok.mp made
    cases made
    refine forall_mem_cons.mpr ⟨⟨item, mem_cons_self, head⟩, fun value member => ?_⟩
    obtain ⟨source, listed, converts⟩ := ih tail value member
    exact ⟨source, mem_cons_of_mem _ listed, converts⟩

/-- A list is converted only if each of its items is. -/
theorem ok_of_mapM : ∀ {converted : List β}, items.mapM convert = .ok converted →
      ∀ item ∈ items, ∃ value, convert item = .ok value := by
  induction items with
  | nil => exact fun _ => forall_mem_nil _
  | cons item items ih =>
    intro converted made
    rw [mapM_cons] at made
    obtain ⟨first, head, made⟩ := bind_eq_ok.mp made
    obtain ⟨rest, tail, -⟩ := bind_eq_ok.mp made
    exact forall_mem_cons.mpr ⟨⟨first, head⟩, ih tail⟩

/-- What a conversion makes of a list, item by item. -/
theorem forall₂_of_mapM : ∀ {converted : List β}, items.mapM convert = .ok converted →
      List.Forall₂ (fun item value => convert item = .ok value) items converted := by
  induction items with
  | nil =>
    intro converted made
    cases made
    exact .nil
  | cons item items ih =>
    intro converted made
    rw [mapM_cons] at made
    obtain ⟨first, head, made⟩ := bind_eq_ok.mp made
    obtain ⟨rest, tail, made⟩ := bind_eq_ok.mp made
    cases made
    exact .cons head (ih tail)

/-- A fold that succeeds has passed each of its items in some state. -/
theorem ok_of_foldlM {σ : Type} {step : σ → α → Except ε σ} :
    ∀ {start final : σ}, items.foldlM step start = .ok final →
      ∀ item ∈ items, ∃ before after, step before item = .ok after := by
  induction items with
  | nil => exact fun _ => forall_mem_nil _
  | cons item items ih =>
    intro start final made
    rw [foldlM_cons] at made
    obtain ⟨next, head, tail⟩ := bind_eq_ok.mp made
    exact forall_mem_cons.mpr ⟨⟨start, next, head⟩, ih tail⟩

end Lists

/-- The returned value satisfies `post` and a raised error satisfies `raises`. -/
def Ensures (result : Except ε α) (post : α → Prop) (raises : ε → Prop := fun _ => True) : Prop :=
  match result with
  | .ok value => post value
  | .error failure => raises failure

@[simp] theorem ensures_ok {value : α} {post : α → Prop} {raises : ε → Prop} :
    Ensures (.ok value) post raises ↔ post value := Iff.rfl

@[simp] theorem ensures_error {failure : ε} {post : α → Prop} {raises : ε → Prop} :
    Ensures (.error failure) post raises ↔ raises failure := Iff.rfl

namespace Ensures

variable {result : Except ε α} {post : α → Prop} {raises : ε → Prop}

theorem mono (ensures : Ensures result post raises) (value : ∀ a, post a → post' a)
    (failure : ∀ e, raises e → raises' e) : Ensures result post' raises' := by
  cases result with
  | ok a => exact value a ensures
  | error e => exact failure e ensures

/-- Weakens the postcondition alone. -/
theorem imp (ensures : Ensures result post raises) (value : ∀ a, post a → post' a) :
    Ensures result post' raises :=
  ensures.mono value fun _ raised => raised

/-- Weakens what may be raised alone. -/
theorem raising (ensures : Ensures result post raises) (failure : ∀ e, raises e → raises' e) :
    Ensures result post raises' :=
  ensures.mono (fun _ holds => holds) failure

/-- Sequencing: the continuation may assume the first postcondition. -/
theorem bind (first : Ensures result post raises)
    (rest : ∀ a, post a → Ensures (next a) final raises) :
    Ensures (result >>= next) final raises := by
  cases result with
  | ok a => exact rest a first
  | error e => exact first

/-- Sequencing after a lookup: the continuation may assume what was found. -/
theorem lookup {found : Option α} (absent : found = none → raises failure)
    (rest : ∀ value, found = some value → Ensures (next value) final raises) :
    Ensures (orError found failure >>= next) final raises := by
  cases found with
  | some value => exact rest value rfl
  | none => exact absent rfl

theorem of_ok (ensures : Ensures result post raises) (returned : result = .ok value) :
    post value := by
  rw [returned] at ensures
  exact ensures

theorem of_error (ensures : Ensures result post raises) (raised : result = .error failure) :
    raises failure := by
  rw [raised] at ensures
  exact ensures

end Ensures

end OpenFga
