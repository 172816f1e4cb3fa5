import Mathlib.Data.List.Flatten
import OpenFga.Lib.OrderedMap
import OpenFga.Lib.Paging

/-!
# Paging through several sorted shards

A listing that is spread over shards is read through a window on each of them. A window holds
what its shard has after the cursor, either all of it or all up to a frontier. Up to the
least frontier of the windows that have one, nothing can be missing, so this part of the
windows is merged into a page. If it is too long for the page, it is cut, and the last item
is the cursor; otherwise the least frontier is.

A page spans the listing from one cursor to the next. It may be empty, since a window may
have moved on without a match, but the cursor always moves.
-/

namespace OpenFga.Paging

open List

variable {α κ : Type} [LinearOrder κ] {cursor : κ} {list shard : List α} {last item : α}
  {maximum fuel : Nat} {β : Type} {image : α → β} {key' : β → κ}

section Spans

variable {key : α → κ} {after : Option κ} {listing page : List α} {next : Option κ}

/-- A page holds the listing from a cursor to the next one, or to the end. -/
def Spans (key : α → κ) (after : Option κ) (listing page : List α) : Option κ → Prop
  | none => page = remaining key after listing
  | some cursor => After after cursor ∧
      remaining key after listing = page ++ remaining key (some cursor) listing

/-- The value lies up to a bound, if there is one. -/
def UpTo (bound : Option κ) (value : κ) : Prop := ∀ limit ∈ bound, value ≤ limit

instance (bound : Option κ) (value : κ) : Decidable (UpTo bound value) :=
  inferInstanceAs (Decidable (∀ limit ∈ bound, value ≤ limit))

theorem upTo_some {limit value : κ} : UpTo (some limit) value ↔ value ≤ limit := by
  simp [UpTo]

/-- A cursor further on leaves what it has not passed either. -/
theorem remaining_remaining (beyond : After after cursor) :
    (remaining key after listing).filter (fun item => cursor < key item) =
      remaining key (some cursor) listing := by
  unfold remaining
  rw [filter_filter]
  refine filter_congr fun item _ => ?_
  rw [← Bool.decide_and, decide_eq_decide, after_some]
  exact ⟨And.left, fun later => ⟨later, beyond.trans later.le⟩⟩

/-- A sorted list is what lies up to a value, and then what lies beyond. -/
theorem filter_append_filter (sorted : list.Pairwise fun first second => key first < key second)
    (cursor : κ) :
    (list.filter fun item => key item ≤ cursor) ++ (list.filter fun item => cursor < key item) =
      list := by
  induction list with
  | nil => rfl
  | cons item list ih =>
    obtain ⟨ahead, order⟩ := pairwise_cons.mp sorted
    rcases le_or_gt (key item) cursor with inside | beyond
    · rw [filter_cons_of_pos (by simpa using inside),
        filter_cons_of_neg (by simpa using inside), cons_append, ih order]
    · have empty : (list.filter fun item => key item ≤ cursor) = [] := by
        rw [filter_eq_nil_iff]
        intro other member
        simpa using beyond.trans (ahead other member)
      rw [filter_cons_of_neg (by simpa using beyond),
        filter_cons_of_pos (by simpa using beyond), empty, nil_append,
        filter_eq_self.mpr]
      intro other member
      simpa using beyond.trans (ahead other member)

/-- Sorting puts items with different keys in strict order. -/
theorem sorted_of_perm {list' : List α}
    (order : list'.Pairwise fun first second => key first ≤ key second) (perm : list'.Perm list)
    (apart : list.Pairwise fun first second => key first ≠ key second) :
    list'.Pairwise fun first second => key first < key second := by
  have distinct : list'.Pairwise fun first second => key first ≠ key second :=
    (perm.pairwise_iff fun different => different.symm).mpr apart
  exact (order.and distinct).imp fun both => lt_of_le_of_ne both.1 both.2

/-- What lies up to a cursor ahead spans the listing to the cursor. -/
theorem spans_upTo (sorted : listing.Pairwise fun first second => key first < key second)
    (ahead : ∀ cursor ∈ next, After after cursor) :
    Spans key after listing
      ((remaining key after listing).filter fun item => UpTo next (key item)) next := by
  cases next with
  | none =>
    refine filter_eq_self.mpr ?_
    simp [UpTo]
  | some cursor =>
    have beyond := ahead cursor rfl
    refine ⟨beyond, ?_⟩
    simp only [upTo_some]
    rw [← remaining_remaining beyond,
      filter_append_filter (remaining_sorted sorted after) cursor]

/-- The last item of a sorted page is its greatest. -/
theorem le_last (order : page.Pairwise fun first second => key first < key second)
    (ends : page.getLast? = some last) : ∀ item ∈ page, key item ≤ key last := by
  obtain ⟨init, rfl⟩ := getLast?_eq_some_iff.mp ends
  intro item member
  rcases mem_append.mp member with earlier | final
  · exact ((pairwise_append.mp order).2.2 item earlier last (by simp)).le
  · rw [mem_singleton.mp final]

/-- What is left of a listing, up to one of its items, is an initial part of it. -/
theorem spans_of_initial (sorted : listing.Pairwise fun first second => key first < key second)
    (ends : page.getLast? = some last) (initial : page <+: remaining key after listing) :
    Spans key after listing page (some (key last)) := by
  obtain ⟨rest, split⟩ := initial
  have order := remaining_sorted sorted after
  rw [← split, pairwise_append] at order
  obtain ⟨front, -, across⟩ := order
  have inside := mem_of_getLast? ends
  have beyond : After after (key last) := by
    apply (mem_remaining.mp (_ : last ∈ remaining key after listing)).2
    rw [← split]
    exact mem_append_left _ inside
  refine ⟨beyond, ?_⟩
  rw [← remaining_remaining beyond, ← split, filter_append,
    filter_eq_nil_iff.mpr, nil_append, filter_eq_self.mpr]
  · intro item member
    simpa using across last inside item member
  · intro item member
    simpa using le_last front ends item member

/-- A page that is cut short spans the listing to its last item. -/
theorem Spans.cut (sorted : listing.Pairwise fun first second => key first < key second)
    (spans : page <+: remaining key after listing) (room : 1 ≤ maximum)
    (more : maximum < page.length) : ∃ last, (page.take maximum).getLast? = some last ∧
      Spans key after listing (page.take maximum) (some (key last)) := by
  have filled : page.take maximum ≠ [] := by
    intro empty
    have short := congrArg length empty
    rw [length_take, length_nil] at short
    omega
  have ends := getLast?_eq_some_getLast filled
  exact ⟨_, ends, spans_of_initial sorted ends (( take_prefix _ _).trans spans)⟩

/-- Two pages, one after the other. -/
theorem Spans.append {page' : List α} (spans : Spans key after listing page (some cursor))
    (spans' : Spans key (some cursor) listing page' next) :
    Spans key after listing (page ++ page') next := by
  obtain ⟨ahead, split⟩ := spans
  cases next with
  | none =>
    have rest : page' = remaining key (some cursor) listing := spans'
    rw [Spans, split, rest]
  | some next =>
    obtain ⟨ahead', split'⟩ := spans'
    refine ⟨ahead.trans (after_some.mp ahead').le, ?_⟩
    rw [split, split', append_assoc]

/-- A page that ends with a cursor holds what lies up to it. -/
theorem Spans.eq_filter (sorted : listing.Pairwise fun first second => key first < key second)
    (spans : Spans key after listing page (some cursor)) :
    page = (remaining key after listing).filter fun item => key item ≤ cursor := by
  obtain ⟨ahead, split⟩ := spans
  have whole := filter_append_filter (remaining_sorted sorted after) cursor
  rw [remaining_remaining ahead] at whole
  conv_rhs at whole => rw [split]
  exact (append_cancel_right whole).symm

/-- A page that spans the listing is an initial part of what is left. -/
theorem Spans.isPrefix (spans : Spans key after listing page next) :
    page <+: remaining key after listing := by
  cases next with
  | none => exact spans ▸ prefix_rfl
  | some cursor => exact ⟨_, spans.2.symm⟩

/-- What is left of the images of a listing, if these have the keys of their originals. -/
theorem remaining_map (same : ∀ item ∈ listing, key' (image item) = key item) :
    remaining key' after (listing.map image) = (remaining key after listing).map image := by
  unfold remaining
  rw [filter_map]
  congr 1
  refine filter_congr fun item member => ?_
  rw [Function.comp_apply, same item member]

theorem Spans.map (same : ∀ item ∈ listing, key' (image item) = key item)
    (spans : Spans key after listing page next) :
    Spans key' after (listing.map image) (page.map image) next := by
  cases next with
  | none =>
    have whole : page = remaining key after listing := spans
    rw [Spans, remaining_map same, whole]
  | some cursor =>
    refine ⟨spans.1, ?_⟩
    rw [remaining_map same, remaining_map same, ← map_append, ← spans.2]

end Spans

section Windows

/-- What was read of one shard. -/
structure Window (α κ : Type) where
  found : List α
  frontier : Option κ
  exhausted : Bool

variable (key : α → κ) (after : Option κ)

/-- A window holds what its shard has after the cursor: all of it if the shard is exhausted,
and otherwise all up to a frontier ahead of the cursor. -/
def Window.Reads (window : Window α κ) (shard : List α) : Prop :=
  if window.exhausted then window.found = remaining key after shard
  else ∃ frontier, window.frontier = some frontier ∧ After after frontier ∧
    window.found = (remaining key after shard).filter fun item => key item ≤ frontier

/-- The least frontier of the windows that have more to read. -/
def safeFrontier (windows : List (Window α κ)) : Option κ :=
  ((windows.filter fun window => !window.exhausted).filterMap Window.frontier).min?

/-- What the windows hold up to the safe frontier, in order. -/
def merged (windows : List (Window α κ)) : List α :=
  ((windows.flatMap Window.found).filter fun item =>
    UpTo (safeFrontier windows) (key item)).mergeSort fun first second => key first ≤ key second

/-- The page that the windows give, with the next cursor. -/
def mergedPage (windows : List (Window α κ)) (maximum : Nat) : List α × Option κ :=
  if maximum < (merged key windows).length then
    ((merged key windows).take maximum, ((merged key windows).take maximum).getLast?.map key)
  else (merged key windows, safeFrontier windows)

variable {key after} {windows : List (Window α κ)} {listing : List α}

theorem safeFrontier_le {window : Window α κ} {frontier : κ} (member : window ∈ windows)
    (more : window.exhausted = false) (held : window.frontier = some frontier) :
    ∃ least, safeFrontier windows = some least ∧ least ≤ frontier := by
  have listed : frontier ∈
      (windows.filter fun window => !window.exhausted).filterMap Window.frontier :=
    mem_filterMap.mpr ⟨window, mem_filter.mpr ⟨member, by simp [more]⟩, held⟩
  cases found : safeFrontier windows with
  | none =>
    rw [safeFrontier, min?_eq_none_iff] at found
    simp [found] at listed
  | some least => exact ⟨least, rfl, (min?_eq_some_iff.mp found).2 frontier listed⟩

theorem exists_safeFrontier {least : κ} (found : safeFrontier windows = some least) :
    ∃ window ∈ windows, window.exhausted = false ∧ window.frontier = some least := by
  obtain ⟨listed, -⟩ := min?_eq_some_iff.mp found
  obtain ⟨window, member, held⟩ := mem_filterMap.mp listed
  obtain ⟨inside, more⟩ := mem_filter.mp member
  exact ⟨window, inside, by simpa using more, held⟩

/-- A window holds what its shard has up to the safe frontier, and nothing else. -/
theorem Window.Reads.mem_iff {window : Window α κ} (reads : window.Reads key after shard)
    (member : window ∈ windows) (inside : UpTo (safeFrontier windows) (key item)) :
    item ∈ window.found ↔ item ∈ remaining key after shard := by
  cases more : window.exhausted with
  | true =>
    rw [Window.Reads, if_pos more] at reads
    rw [reads]
  | false =>
    rw [Window.Reads, if_neg (by simp [more])] at reads
    obtain ⟨frontier, held, -, whole⟩ := reads
    obtain ⟨least, safe, below⟩ := safeFrontier_le member more held
    have reached : key item ≤ frontier := (inside least safe).trans below
    rw [whole, mem_filter, decide_eq_true_iff, and_iff_left reached]

theorem Window.Reads.sublist {window : Window α κ} (reads : window.Reads key after shard) :
    window.found.Sublist shard := by
  unfold Window.Reads at reads
  split at reads
  · exact reads ▸ filter_sublist
  · obtain ⟨frontier, -, -, whole⟩ := reads
    exact whole ▸ filter_sublist.trans filter_sublist

section Merge

variable {ι : Type} {indices : List ι} {shard : ι → List α} {window : ι → Window α κ}
  (sorted : listing.Pairwise fun first second => key first < key second)
  (split : (indices.flatMap shard).Perm listing)
  (reads : ∀ index ∈ indices, (window index).Reads key after (shard index))

include reads

/-- The safe frontier is ahead of the cursor. -/
theorem after_safeFrontier : ∀ least ∈ safeFrontier (indices.map window), After after least := by
  intro least safe
  obtain ⟨given, member, more, held⟩ := exists_safeFrontier safe
  obtain ⟨index, listed, rfl⟩ := mem_map.mp member
  have read := reads index listed
  rw [Window.Reads, if_neg (by simp [more])] at read
  obtain ⟨frontier, same, ahead, -⟩ := read
  rw [held, Option.some.injEq] at same
  exact same ▸ ahead

include split

theorem mem_merged : item ∈ merged key (indices.map window) ↔
    item ∈ remaining key after listing ∧
      UpTo (safeFrontier (indices.map window)) (key item) := by
  rw [merged, mem_mergeSort, mem_filter, decide_eq_true_iff]
  refine and_congr_left fun inside => ?_
  rw [flatMap_map, mem_flatMap, mem_remaining, ← split.mem_iff, mem_flatMap]
  constructor
  · rintro ⟨index, listed, found⟩
    have held := ((reads index listed).mem_iff (mem_map_of_mem listed) inside).mp found
    obtain ⟨member, later⟩ := mem_remaining.mp held
    exact ⟨⟨index, listed, member⟩, later⟩
  · rintro ⟨⟨index, listed, member⟩, later⟩
    have held := mem_remaining.mpr ⟨member, later⟩
    exact ⟨index, listed,
      ((reads index listed).mem_iff (mem_map_of_mem listed) inside).mpr held⟩

include sorted

theorem merged_sorted : (merged key (indices.map window)).Pairwise fun first second =>
    key first < key second := by
  have apart : ((indices.map window).flatMap Window.found).Pairwise fun first second =>
      key first ≠ key second := by
    rw [flatMap_map]
    refine List.Pairwise.sublist (List.Sublist.flatMap_right indices fun index listed =>
      (reads index listed).sublist) ?_
    exact (split.pairwise_iff fun different => different.symm).mpr (sorted.imp ne_of_lt)
  refine sorted_of_perm ?_ (mergeSort_perm _ _) (apart.filter _)
  refine (pairwise_mergeSort ?_ ?_ _).imp (by simp)
  · intro first second third
    simpa using le_trans
  · intro first second
    simpa using le_total (key first) (key second)

/-- Merging the windows gives what the listing has between the cursor and the safe
frontier. -/
theorem merged_eq : merged key (indices.map window) =
    (remaining key after listing).filter fun item =>
      UpTo (safeFrontier (indices.map window)) (key item) := by
  refine OrderedMap.eq_of_sorted (merged_sorted sorted split reads)
    ((remaining_sorted sorted after).filter _) fun item => ?_
  rw [mem_merged split reads, mem_filter, decide_eq_true_iff]

/-- The page of the windows spans the listing. -/
theorem mergedPage_spans (room : 1 ≤ maximum) :
    Spans key after listing (mergedPage key (indices.map window) maximum).1
      (mergedPage key (indices.map window) maximum).2 := by
  have whole : Spans key after listing (merged key (indices.map window))
    (safeFrontier (indices.map window)) := by
    rw [merged_eq sorted split reads]
    exact spans_upTo sorted (after_safeFrontier reads)
  by_cases more : maximum < (merged key (indices.map window)).length
  · obtain ⟨last, ends, spans⟩ := Spans.cut sorted whole.isPrefix room more
    rw [mergedPage, if_pos more, ends]
    exact spans
  · rw [mergedPage, if_neg more]
    exact whole

end Merge

/-- The next cursor is the key of an item, or a frontier. -/
theorem mergedPage_next {next : κ} (given : (mergedPage key windows maximum).2 = some next) :
    (∃ item ∈ merged key windows, key item = next) ∨
      ∃ window ∈ windows, window.exhausted = false ∧ window.frontier = some next := by
  unfold mergedPage at given
  split at given
  · obtain ⟨item, last, same⟩ := Option.map_eq_some_iff.mp given
    exact .inl ⟨item, mem_of_mem_take (mem_of_getLast? last), same⟩
  · exact .inr (exists_safeFrontier given)

theorem mem_merged_of_mem_page (member : item ∈ (mergedPage key windows maximum).1) :
    item ∈ merged key windows := by
  unfold mergedPage at member
  split at member
  · exact mem_of_mem_take member
  · exact member

theorem length_mergedPage (windows : List (Window α κ)) (maximum : Nat) :
    (mergedPage key windows maximum).1.length ≤ maximum := by
  unfold mergedPage
  split
  · exact length_take_le _ _
  · rename_i few
    exact Nat.not_lt.mp few

end Windows

section Spanning

variable {γ ε : Type}

/-- A read whose pages span a listing: it accepts no cursor, or the cursor of a key, and its
next cursor is that of a key again. -/
def Spanning (read : Nat → Option γ → Except ε (List α × Option γ)) (key : α → κ)
    (cursor : κ → γ) (keys : Finset κ) (listing : List α) : Prop :=
  ∀ turn after, (∀ value ∈ after, value ∈ keys) → ∃ page next,
    read turn (after.map cursor) = .ok (page, next.map cursor) ∧
      Spans key after listing page next ∧ ∀ value ∈ next, value ∈ keys

variable {read : Nat → Option γ → Except ε (List α × Option γ)} {key : α → κ}
  {cursor : κ → γ} {keys : Finset κ} {listing : List α} {after : Option κ}

/-- The keys ahead become fewer with every cursor. -/
theorem card_ahead_lt {next : κ} (known : next ∈ keys) (ahead : After after next) :
    (keys.filter fun value => After (some next) value).card <
      (keys.filter fun value => After after value).card := by
  apply Finset.card_lt_card
  rw [Finset.ssubset_iff_of_subset]
  · refine ⟨next, Finset.mem_filter.mpr ⟨known, ahead⟩, ?_⟩
    rw [Finset.mem_filter, after_some]
    exact fun beyond => lt_irrefl _ beyond.2
  · intro value member
    rw [Finset.mem_filter, after_some] at member
    exact Finset.mem_filter.mpr ⟨member.1, ahead.trans member.2.le⟩

/-- Following the cursors gives what is left of the listing. Every page but the last moves
the cursor to a key that was ahead of it. -/
theorem Spanning.follow_eq (spanning : Spanning read key cursor keys listing) (turn : Nat)
    (known : ∀ value ∈ after, value ∈ keys)
    (enough : (keys.filter fun value => After after value).card < fuel) :
    follow read fuel turn (after.map cursor) = .ok (some (remaining key after listing)) := by
  induction fuel generalizing turn after with
  | zero => cases enough
  | succ fuel ih =>
    obtain ⟨page, next, given, spans, inside⟩ := spanning turn after known
    unfold follow
    rw [given]
    cases next with
    | none =>
      have whole : page = remaining key after listing := spans
      simp only [bind, Except.bind, Option.map_none, whole]
    | some next =>
      obtain ⟨ahead, split⟩ := spans
      have fewer := card_ahead_lt (inside next rfl) ahead
      have rest := ih (turn + 1) inside (by omega)
      rw [Option.map_some] at rest
      simp only [bind, Except.bind, Option.map_some, rest, split]

/-- The pages of a listing end, and together they are the listing. -/
theorem Spanning.follow_all (spanning : Spanning read key cursor keys listing) :
    follow read (keys.card + 1) 0 none = .ok (some listing) := by
  have whole : remaining key none listing = listing := by
    refine filter_eq_self.mpr ?_
    simp [After]
  have start : ∀ value ∈ (none : Option κ), value ∈ keys := by simp
  have followed := spanning.follow_eq 0 start
    (Nat.lt_succ_of_le (Finset.card_filter_le keys _))
  rwa [whole, Option.map_none] at followed

omit [LinearOrder κ] in
/-- What is given out, is given out on some page. -/
theorem mem_page_of_follow {turn : Nat} {after : Option γ} {items : List α}
    (followed : follow read fuel turn after = .ok (some items)) :
    ∀ item ∈ items, ∃ turn after page next, read turn after = .ok (page, next) ∧ item ∈ page := by
  induction fuel generalizing turn after items with
  | zero => cases followed
  | succ fuel ih =>
    unfold follow at followed
    cases given : read turn after with
    | error failure =>
      rw [given] at followed
      cases followed
    | ok result =>
      obtain ⟨page, next⟩ := result
      rw [given] at followed
      intro item member
      cases next with
      | none =>
        cases followed
        exact ⟨turn, after, items, none, given, member⟩
      | some cursor =>
        cases rest : follow read fuel (turn + 1) (some cursor) with
        | error failure =>
          simp only [bind, Except.bind, rest] at followed
          cases followed
        | ok later =>
          simp only [bind, Except.bind, rest] at followed
          obtain ⟨tail, rfl, rfl⟩ := Option.map_eq_some_iff.mp (Except.ok.inj followed)
          rcases mem_append.mp member with here | there
          · exact ⟨turn, after, page, some cursor, given, here⟩
          · exact ih rest item there

end Spanning

end OpenFga.Paging
