import Mathlib.Data.Finset.Card
import Mathlib.Data.List.Sort

/-!
# Reading a listing page by page

A page holds the entries of a sorted listing that come after a cursor, as many as fit. If
more would follow, the last entry of the page is the next cursor. The listing may change
between two pages: `walk` reads the pages of a sequence of listings, one after another,
until a page is the last.

The cursor only moves forward. So no entry is given out twice, an entry that stays in the
listing is not passed over, and a walk over finitely many keys ends.
-/

namespace OpenFga.Paging

open List

variable {α κ : Type} {items page : List α} {value : κ}

/-- As many items as fit, with the last of them if there are more. -/
def boundedPage (items : List α) (maximum : Nat) : List α × Option α :=
  let values := items.take (maximum + 1)
  if maximum < values.length then (values.dropLast, values.dropLast.getLast?)
  else (values, none)

theorem boundedPage_of_more {maximum : Nat} (more : maximum < items.length) :
    boundedPage items maximum = (items.take maximum, (items.take maximum).getLast?) := by
  have length : (items.take (maximum + 1)).length = maximum + 1 := by
    rw [length_take]
    omega
  have page : (items.take (maximum + 1)).dropLast = items.take maximum := by
    rw [dropLast_eq_take, length, Nat.add_sub_cancel, take_take]
    congr 1
    omega
  rw [boundedPage, if_pos (by omega), page]

theorem boundedPage_of_last {maximum : Nat} (last : items.length ≤ maximum) :
    boundedPage items maximum = (items, none) := by
  have whole : items.take (maximum + 1) = items := take_of_length_le (by omega)
  rw [boundedPage, whole, if_neg (by omega)]

variable [LinearOrder κ] (key : α → κ)

/-- The key lies after a cursor, if there is one. -/
def After (after : Option κ) (value : κ) : Prop := ∀ cursor ∈ after, cursor < value

instance (after : Option κ) (value : κ) : Decidable (After after value) :=
  inferInstanceAs (Decidable (∀ cursor ∈ after, cursor < value))

/-- What a cursor has not passed. -/
def remaining (after : Option κ) (listing : List α) : List α :=
  listing.filter fun item => After after (key item)

variable {key} {after : Option κ} {listing : List α} {maximum : Nat} {item : α}

theorem mem_remaining : item ∈ remaining key after listing ↔
    item ∈ listing ∧ After after (key item) := by
  rw [remaining, mem_filter, decide_eq_true_iff]

theorem After.trans {value' : κ} (first : After after value) (second : value ≤ value') :
    After after value' :=
  fun cursor held => (first cursor held).trans_le second

theorem after_some {cursor : κ} : After (some cursor) value ↔ cursor < value := by
  simp [After]

section Page

variable (sorted : listing.Pairwise fun first second => key first < key second)

include sorted

theorem remaining_sorted (after : Option κ) :
    (remaining key after listing).Pairwise fun first second => key first < key second :=
  sorted.filter _

/-- A page that is followed by another one ends with its cursor: the page holds what lies
up to the cursor, and the rest lies beyond it. -/
theorem boundedPage_more {last : α}
    (given : boundedPage (remaining key after listing) maximum = (page, some last)) :
    last ∈ page ∧ (∀ item ∈ page, key item ≤ key last) ∧
      remaining key after listing = page ++ remaining key (some (key last)) listing := by
  have more : maximum < (remaining key after listing).length := by
    by_contra few
    rw [boundedPage_of_last (Nat.not_lt.mp few)] at given
    cases given
  rw [boundedPage_of_more more, Prod.mk.injEq] at given
  obtain ⟨rfl, ends⟩ := given
  have inside : last ∈ (remaining key after listing).take maximum := mem_of_getLast? ends
  have split := take_append_drop maximum (remaining key after listing)
  have order := remaining_sorted sorted after
  rw [← split, pairwise_append] at order
  obtain ⟨front, -, across⟩ := order
  have bounded : ∀ item ∈ (remaining key after listing).take maximum, key item ≤ key last := by
    obtain ⟨init, whole⟩ := getLast?_eq_some_iff.mp ends
    rw [whole] at front ⊢
    intro item member
    rcases mem_append.mp member with earlier | final
    · exact ((pairwise_append.mp front).2.2 item earlier last (by simp)).le
    · rw [mem_singleton.mp final]
  refine ⟨inside, bounded, ?_⟩
  have started : After after (key last) := (mem_remaining.mp (mem_of_mem_take inside)).2
  have beyond : remaining key (some (key last)) listing =
      (remaining key after listing).drop maximum := by
    have narrowed : remaining key (some (key last)) listing =
        remaining key (some (key last)) (remaining key after listing) := by
      unfold remaining
      rw [filter_filter]
      refine filter_congr fun item _ => ?_
      rw [← Bool.decide_and, decide_eq_decide]
      refine ⟨fun later => ⟨later, started.trans (after_some.mp later).le⟩, And.left⟩
    rw [narrowed]
    conv_lhs => rw [← split]
    unfold remaining
    rw [filter_append, filter_eq_nil_iff.mpr, nil_append,
      filter_eq_self.mpr]
    · intro item member
      rw [decide_eq_true_iff, after_some]
      exact across last inside item member
    · intro item member
      rw [decide_eq_true_iff, after_some]
      exact not_lt.mpr (bounded item member)
  rw [beyond, split]

omit sorted in
/-- The last page holds all that is left. -/
theorem boundedPage_last (room : 1 ≤ maximum)
    (given : boundedPage (remaining key after listing) maximum = (page, none)) :
    page = remaining key after listing := by
  by_cases more : maximum < (remaining key after listing).length
  · rw [boundedPage_of_more more, Prod.mk.injEq, getLast?_eq_none_iff,
      take_eq_nil_iff] at given
    rcases given.2 with none | none
    · omega
    · rw [none] at more
      cases more
  · rw [boundedPage_of_last (Nat.not_lt.mp more)] at given
    cases given
    rfl

end Page

section Walk

variable (key) (size : Nat → Nat) (listings : Nat → List α)

/-- The pages read at consecutive turns, if one of them is the last. -/
def walk : Nat → Nat → Option κ → Option (List α)
  | 0, _, _ => none
  | fuel + 1, turn, after =>
      match boundedPage (remaining key after (listings turn)) (size turn) with
      | (page, none) => some page
      | (page, some last) => (walk fuel (turn + 1) (some (key last))).map (page ++ ·)

variable {key size listings} {fuel turn : Nat} {items : List α}
  (room : ∀ turn, 1 ≤ size turn)
  (sorted : ∀ turn, (listings turn).Pairwise fun first second => key first < key second)

include room sorted

/-- A walk gives its items in order, all of them after the cursor and from a listing that
it has read. -/
theorem walk_sorted (ended : walk key size listings fuel turn after = some items) :
    (items.Pairwise fun first second => key first < key second) ∧
      ∀ item ∈ items, After after (key item) ∧ ∃ turn' ≥ turn, item ∈ listings turn' := by
  induction fuel generalizing turn after items with
  | zero => cases ended
  | succ fuel ih =>
    unfold walk at ended
    split at ended
    · rename_i page given
      cases ended
      rw [boundedPage_last (room turn) given]
      refine ⟨remaining_sorted (sorted turn) after, fun item member => ?_⟩
      obtain ⟨listed, later⟩ := mem_remaining.mp member
      exact ⟨later, turn, le_rfl, listed⟩
    · rename_i page last given
      obtain ⟨rest, walked, rfl⟩ := Option.map_eq_some_iff.mp ended
      obtain ⟨inside, bounded, split⟩ := boundedPage_more (sorted turn) given
      obtain ⟨order, members⟩ := ih walked
      have front : ∀ item ∈ page, item ∈ remaining key after (listings turn) := by
        intro item member
        rw [split]
        exact mem_append_left _ member
      constructor
      · have whole := remaining_sorted (sorted turn) after
        rw [split] at whole
        rw [pairwise_append]
        refine ⟨(pairwise_append.mp whole).1, order, fun item member item' member' => ?_⟩
        exact (bounded item member).trans_lt (after_some.mp (members item' member').1)
      · intro item member
        rcases mem_append.mp member with here | later
        · obtain ⟨listed, beyond⟩ := mem_remaining.mp (front item here)
          exact ⟨beyond, turn, le_rfl, listed⟩
        · obtain ⟨beyond, turn', next, listed⟩ := members item later
          have started := (mem_remaining.mp (front last inside)).2
          exact ⟨started.trans (after_some.mp beyond).le, turn', by omega, listed⟩

/-- A key that stays listed is given out. -/
theorem walk_complete (ended : walk key size listings fuel turn after = some items)
    (listed : ∀ turn' ≥ turn, ∃ item ∈ listings turn', key item = value)
    (later : After after value) : ∃ item ∈ items, key item = value := by
  induction fuel generalizing turn after items with
  | zero => cases ended
  | succ fuel ih =>
    obtain ⟨item, member, rfl⟩ := listed turn le_rfl
    have here : item ∈ remaining key after (listings turn) :=
      mem_remaining.mpr ⟨member, later⟩
    unfold walk at ended
    split at ended
    · rename_i page given
      cases ended
      rw [boundedPage_last (room turn) given]
      exact ⟨item, here, rfl⟩
    · rename_i page last given
      obtain ⟨rest, walked, rfl⟩ := Option.map_eq_some_iff.mp ended
      obtain ⟨-, -, split⟩ := boundedPage_more (sorted turn) given
      rw [split] at here
      rcases mem_append.mp here with front | beyond
      · exact ⟨item, mem_append_left _ front, rfl⟩
      · obtain ⟨found, inside, same⟩ := ih walked
          (fun turn' next => listed turn' (by omega)) (mem_remaining.mp beyond).2
        exact ⟨found, mem_append_right _ inside, same⟩

/-- A walk over an unchanged listing gives it out. -/
theorem walk_unchanged (same : ∀ turn' ≥ turn, listings turn' = listing)
    (ended : walk key size listings fuel turn after = some items) :
    items = remaining key after listing := by
  induction fuel generalizing turn after items with
  | zero => cases ended
  | succ fuel ih =>
    unfold walk at ended
    rw [same turn le_rfl] at ended
    have order := same turn le_rfl ▸ sorted turn
    split at ended
    · rename_i page given
      cases ended
      exact boundedPage_last (room turn) given
    · rename_i page last given
      obtain ⟨rest, walked, rfl⟩ := Option.map_eq_some_iff.mp ended
      obtain ⟨-, -, split⟩ := boundedPage_more order given
      rw [split, ih (fun turn' next => same turn' (by omega)) walked]

omit room in
/-- A walk whose keys lie in a finite set ends. Each page but the last moves the cursor on
to a key that was ahead of it. -/
theorem walk_ends (keys : Finset κ) (bounded : ∀ turn, ∀ item ∈ listings turn, key item ∈ keys)
    (enough : (keys.filter fun value => After after value).card < fuel) :
    ∃ items, walk key size listings fuel turn after = some items := by
  induction fuel generalizing turn after with
  | zero => cases enough
  | succ fuel ih =>
    unfold walk
    split
    · exact ⟨_, rfl⟩
    · rename_i page last given
      obtain ⟨inside, -, split⟩ := boundedPage_more (sorted turn) given
      have here : last ∈ remaining key after (listings turn) := by
        rw [split]
        exact mem_append_left _ inside
      obtain ⟨listed, started⟩ := mem_remaining.mp here
      have fewer : (keys.filter fun value => After (some (key last)) value).card <
          (keys.filter fun value => After after value).card := by
        apply Finset.card_lt_card
        rw [Finset.ssubset_iff_of_subset]
        · refine ⟨key last, Finset.mem_filter.mpr ⟨bounded turn last listed, started⟩, ?_⟩
          rw [Finset.mem_filter, after_some]
          exact fun ahead => lt_irrefl _ ahead.2
        · intro value member
          rw [Finset.mem_filter, after_some] at member
          exact Finset.mem_filter.mpr ⟨member.1, started.trans member.2.le⟩
      obtain ⟨rest, walked⟩ : ∃ items,
          walk key size listings fuel (turn + 1) (some (key last)) = some items :=
        ih (by omega)
      exact ⟨page ++ rest, by rw [walked, Option.map_some]⟩

end Walk

section Follow

variable {γ ε : Type}

/-- Follows the cursors of a paged read until there is none. -/
def follow (read : Nat → Option γ → Except ε (List α × Option γ)) :
    Nat → Nat → Option γ → Except ε (Option (List α))
  | 0, _, _ => .ok none
  | fuel + 1, turn, after => do
      match ← read turn after with
      | (page, none) => .ok (some page)
      | (page, some cursor) =>
          let rest ← follow read fuel (turn + 1) (some cursor)
          .ok (rest.map (page ++ ·))

/-- A read gives the pages of listings: at each turn it accepts no cursor, or the cursor of
an item listed at any turn. -/
structure Pages (read : Nat → Option γ → Except ε (List α × Option γ)) (key : α → κ)
    (cursor : κ → γ) (size : Nat → Nat) (listings : Nat → List α) : Prop where
  room : ∀ turn, 1 ≤ size turn
  sorted : ∀ turn, (listings turn).Pairwise fun first second => key first < key second
  accepts : ∀ turn after, (∀ value ∈ after, ∃ turn', ∃ item ∈ listings turn', key item = value) →
    read turn (after.map cursor) =
      let page := boundedPage (remaining key after (listings turn)) (size turn)
      .ok (page.1, page.2.map (cursor ∘ key))

variable {read : Nat → Option γ → Except ε (List α × Option γ)} {cursor : κ → γ}
  {size : Nat → Nat} {listings : Nat → List α}

/-- Following the cursors is a walk through the listings. -/
theorem Pages.follow_eq (pages : Pages read key cursor size listings) (fuel turn : Nat)
    (seen : ∀ value ∈ after, ∃ turn', ∃ item ∈ listings turn', key item = value) :
    follow read fuel turn (after.map cursor) = .ok (walk key size listings fuel turn after) := by
  induction fuel generalizing turn after with
  | zero => rfl
  | succ fuel ih =>
    unfold follow walk
    rw [pages.accepts turn after seen]
    split
    · rename_i page given
      simp only [bind, Except.bind, given, Option.map_none]
    · rename_i page last given
      obtain ⟨inside, -, split⟩ := boundedPage_more (pages.sorted turn) given
      have listed : last ∈ listings turn := by
        apply (mem_remaining.mp (_ : last ∈ remaining key after (listings turn))).1
        rw [split]
        exact mem_append_left _ inside
      have rest : follow read fuel (turn + 1) (some (cursor (key last))) =
          .ok (walk key size listings fuel (turn + 1) (some (key last))) := by
        rw [← Option.map_some]
        apply ih (turn + 1)
        rintro value ⟨⟩
        exact ⟨turn, last, listed, rfl⟩
      simp only [bind, Except.bind, given, Option.map_some, Function.comp_apply, rest]

/-- What is expected of a paged read: its own cursors are accepted, nothing is given out twice
or out of order or without having been listed, what stays listed is given out, the pages of an
unchanged listing are the listing, and over finitely many keys the pages end. -/
structure Faithful (read : Nat → Option γ → Except ε (List α × Option γ)) (key : α → κ)
    (listings : Nat → List α) : Prop where
  accepted : ∀ fuel, ∃ result, follow read fuel 0 none = .ok result
  sorted : ∀ fuel items, follow read fuel 0 none = .ok (some items) →
    items.Pairwise fun first second => key first < key second
  listed : ∀ fuel items, follow read fuel 0 none = .ok (some items) →
    ∀ item ∈ items, ∃ turn, item ∈ listings turn
  complete : ∀ fuel items, follow read fuel 0 none = .ok (some items) →
    ∀ value, (∀ turn, ∃ item ∈ listings turn, key item = value) →
      ∃ item ∈ items, key item = value
  unchanged : ∀ fuel items listing, (∀ turn, listings turn = listing) →
    follow read fuel 0 none = .ok (some items) → items = listing
  ends : ∀ keys : Finset κ, (∀ turn, ∀ item ∈ listings turn, key item ∈ keys) →
    ∃ items, follow read (keys.card + 1) 0 none = .ok (some items)

theorem Pages.faithful (pages : Pages read key cursor size listings) :
    Faithful read key listings := by
  have start : ∀ value ∈ (none : Option κ), ∃ turn, ∃ item ∈ listings turn, key item = value := by
    simp
  have walks : ∀ fuel, follow read fuel 0 none = .ok (walk key size listings fuel 0 none) :=
    fun fuel => pages.follow_eq fuel 0 start
  have walked : ∀ {fuel items}, follow read fuel 0 none = .ok (some items) →
      walk key size listings fuel 0 none = some items := by
    intro fuel items followed
    rw [walks fuel] at followed
    exact Except.ok.inj followed
  refine ⟨fun fuel => ⟨_, walks fuel⟩, ?_, ?_, ?_, ?_, ?_⟩
  · intro fuel items followed
    exact (walk_sorted pages.room pages.sorted (walked followed)).1
  · intro fuel items followed item member
    obtain ⟨-, turn, -, found⟩ :=
      (walk_sorted pages.room pages.sorted (walked followed)).2 item member
    exact ⟨turn, found⟩
  · intro fuel items followed value present
    exact walk_complete pages.room pages.sorted (walked followed) (fun turn _ => present turn)
      (by simp [After])
  · intro fuel items listing same followed
    rw [walk_unchanged pages.room pages.sorted (fun turn _ => same turn) (walked followed),
      remaining, filter_eq_self]
    simp [After]
  · intro keys bounded
    obtain ⟨items, ended⟩ : ∃ items, walk key size listings (keys.card + 1) 0 none = some items :=
      walk_ends pages.sorted keys bounded (Nat.lt_succ_of_le (Finset.card_filter_le _ _))
    exact ⟨items, by rw [walks, ended]⟩

end Follow

/-- The items of a page, and its last one, come from the listing. -/
theorem mem_boundedPage {maximum : Nat} : (∀ item ∈ (boundedPage items maximum).1, item ∈ items) ∧
      ∀ item ∈ (boundedPage items maximum).2, item ∈ items := by
  by_cases more : maximum < items.length
  · rw [boundedPage_of_more more]
    exact ⟨fun item member => mem_of_mem_take member,
      fun item last => mem_of_mem_take (mem_of_getLast? last)⟩
  · rw [boundedPage_of_last (Nat.not_lt.mp more)]
    exact ⟨fun item member => member, by simp⟩

theorem boundedPage_map {β : Type} (change : α → β) (items : List α) (maximum : Nat) :
    boundedPage (items.map change) maximum =
      ((boundedPage items maximum).1.map change, (boundedPage items maximum).2.map change) := by
  by_cases more : maximum < items.length
  · rw [boundedPage_of_more more, boundedPage_of_more (by rwa [length_map]), ← map_take,
      getLast?_map]
  · rw [boundedPage_of_last (Nat.not_lt.mp more),
      boundedPage_of_last (by rw [length_map]; exact Nat.not_lt.mp more)]
    rfl

end OpenFga.Paging
