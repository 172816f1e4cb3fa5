import OpenFga.Lib.Windows

/-!
# Following a growing listing

A reader asks for pages of a sorted listing, one after another, while greater items are
appended to it. After a page it goes on at the next cursor if there is one, and otherwise
after the last item it was given. What it has received is then always the part of the listing
between its first cursor and the present one, and after a page without a next cursor it is the
whole rest of the listing.
-/

namespace OpenFga.Paging

variable {α κ : Type} [LinearOrder κ]

/-- Where a reader goes on after a page. -/
def goOn (key : α → κ) (cursor : Option κ) (page : List α) (next : Option κ) : Option κ :=
  next.or ((page.getLast?.map key).or cursor)

/-- What a reader has received on its way from one cursor to another. -/
def Followed (key : α → κ) (start cursor : Option κ) (listing received : List α) : Prop :=
  cursor = start ∧ received = [] ∨
    ∃ reached, cursor = some reached ∧ Spans key start listing received (some reached)

variable {key : α → κ} {start cursor next : Option κ} {listing more received page : List α}

theorem followed_start : Followed key start start listing [] := .inl ⟨rfl, rfl⟩

/-- A page that is given out is part of the way. -/
theorem Followed.trans (followed : Followed key start cursor listing received)
    (spans : Spans key cursor listing page next) :
    Spans key start listing (received ++ page) next := by
  rcases followed with ⟨rfl, rfl⟩ | ⟨reached, rfl, spanned⟩
  · rwa [List.nil_append]
  · exact spanned.append spans

theorem Followed.goOn (sorted : listing.Pairwise fun first second => key first < key second)
    (followed : Followed key start cursor listing received)
    (spans : Spans key cursor listing page next) :
    Followed key start (goOn key cursor page next) listing (received ++ page) := by
  cases next with
  | some reached => exact .inr ⟨reached, rfl, followed.trans spans⟩
  | none =>
    cases ends : page.getLast? with
    | none =>
      rw [List.getLast?_eq_none_iff.mp ends, List.append_nil]
      exact followed
    | some last =>
      refine .inr ⟨key last, ?_, followed.trans (spans_of_initial sorted ends spans.isPrefix)⟩
      rw [Paging.goOn, ends]
      rfl

/-- Items beyond the cursor do not disturb the reader. -/
theorem Followed.extend (followed : Followed key start cursor listing received)
    (beyond : ∀ reached ∈ cursor, cursor ≠ start → ∀ item ∈ more, reached < key item) :
    Followed key start cursor (listing ++ more) received := by
  rcases followed with here | ⟨reached, rfl, ahead, split⟩
  · exact .inl here
  · have moved : some reached ≠ start := by
      rintro rfl
      exact lt_irrefl reached (after_some.mp ahead)
    have later := beyond reached rfl moved
    have rest : ∀ bound, After bound reached ∨ bound = some reached →
        remaining key bound more = more := by
      intro bound behind
      refine List.filter_eq_self.mpr fun item member => decide_eq_true ?_
      rcases behind with behind | rfl
      · exact behind.trans (later item member).le
      · exact after_some.mpr (later item member)
    refine .inr ⟨reached, rfl, ahead, ?_⟩
    unfold remaining at split rest ⊢
    rw [List.filter_append, List.filter_append, split, rest start (.inl ahead),
      rest (some reached) (.inr rfl), List.append_assoc]

theorem Followed.mem (followed : Followed key start cursor listing received) {item : α}
    (member : item ∈ received) : item ∈ listing ∧ After start (key item) := by
  rcases followed with ⟨-, rfl⟩ | ⟨reached, -, spans⟩
  · cases member
  · exact mem_remaining.mp (spans.isPrefix.subset member)

section

variable (ordered : listing.Pairwise fun first second => key first < key second)
  (followed : Followed key start cursor listing received)

include ordered followed

theorem Followed.sorted : received.Pairwise fun first second => key first < key second := by
  rcases followed with ⟨-, rfl⟩ | ⟨reached, -, spans⟩
  · exact .nil
  · exact (remaining_sorted ordered start).sublist spans.isPrefix.sublist

/-- The cursor has not passed an item that was not given out. -/
theorem Followed.mem_of_le {item : α} (listed : item ∈ listing)
    (after : After start (key item)) {reached : κ} (held : cursor = some reached)
    (passed : key item ≤ reached) : item ∈ received := by
  rcases followed with ⟨rfl, -⟩ | ⟨_, same, spans⟩
  · exact absurd (after reached held) passed.not_gt
  · rw [held, Option.some.injEq] at same
    subst same
    rw [spans.eq_filter ordered]
    exact List.mem_filter.mpr ⟨mem_remaining.mpr ⟨listed, after⟩, decide_eq_true passed⟩

end

end OpenFga.Paging
