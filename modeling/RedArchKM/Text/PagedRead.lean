import Mathlib.Data.Finset.Range
import Mathlib.Data.List.Sort
import RedArchKM.Text.Stitch

/-!
# Reading a document in pages

A page is assembled from windows of the chunks that the caller may see, in reading order, until it
has enough characters. A chunk whose number was seen before is passed over, a gap in the numbers is
read on from, and a page says where the next one starts.

The pages of a document, from the first chunk on, are finite in number, and hold every number of a
visible chunk once, in increasing order (`exists_pages`).
-/

namespace RedArchKM.Text

open List

/-! ## The store -/

/-- The chunks of a document that the caller may see, as the store returns them. -/
abbrev Document := List Chunk

namespace Document

variable (document : Document)

/-- `document_chunk_window`: the chunks of a window in reading order, and how many there are. -/
def chunkWindow (start limit : Nat) : List Chunk × Nat :=
  if document.length = 0 then ([], 0)
  else
    ((document.filter fun chunk => start ≤ chunk.chunkOrder && chunk.chunkOrder < start + limit)
      |>.mergeSort fun a b => a.chunkOrder ≤ b.chunkOrder, document.length)

def hasChunksFrom (start : Nat) : Bool := document.any fun chunk => start ≤ chunk.chunkOrder

end Document

/-! ## A page -/

def maxReadChars : Nat := 60000

/-- `_READ_WINDOW` -/
def readWindow : Nat := 40

def maxWindows : Nat := 500

structure PageState where
  taken : List Chunk := []
  seen : List Nat := []
  size : Nat := 0

def headOf (maxChars : Nat) (chunk : Chunk) : Chunk :=
  if chunk.text.length > maxChars then
    { chunk with text := chunk.text.take maxChars ++ " …[rest of this chunk omitted]".toList }
  else chunk

def PageState.take (state : PageState) (maxChars : Nat) (chunk : Chunk) : PageState where
  taken := state.taken ++ [headOf maxChars chunk]
  seen := chunk.chunkOrder :: state.seen
  size := state.size + (headOf maxChars chunk).text.length

/-- The loop over a window, and the chunk that the next page starts with, if the page is full. -/
def takeWindow (maxChars : Nat) : List Chunk → PageState → PageState × Option Nat
  | [], state => (state, none)
  | chunk :: rest, state =>
    if chunk.chunkOrder ∈ state.seen then takeWindow maxChars rest state
    else if !state.taken.isEmpty && state.size + chunk.text.length > maxChars then
      (state, some chunk.chunkOrder)
    else takeWindow maxChars rest (state.take maxChars chunk)

/-- The loop over the windows from a cursor on. Past the last one the page ends where chunks may be
left. -/
def takeWindows (document : Document) (maxChars : Nat) : Nat → Nat → PageState →
    Option (PageState × Option Nat)
  | 0, cursor, state => some (state, if document.hasChunksFrom cursor then some cursor else none)
  | windows + 1, cursor, state =>
    let (window, total) := document.chunkWindow cursor readWindow
    let cursor := cursor + readWindow
    if total = 0 then none
    else if window.isEmpty then
      if document.hasChunksFrom cursor then takeWindows document maxChars windows cursor state
      else some (state, none)
    else
      match takeWindow maxChars window state with
      | (state, some next) => some (state, some next)
      | (state, none) => takeWindows document maxChars windows cursor state

structure PageRead where
  title : String
  totalChunks : Nat
  startChunk : Nat
  endChunk : Nat
  nextChunk : Option Nat
  text : List Char

section

variable (document : Document)

/-- How many characters a page may have. -/
def budget (maxChars : Int) : Nat := (max 1 (min maxChars maxReadChars)).toNat

def readPage (maxChars : Int) (startChunk : Nat) : Option (PageState × Option Nat) :=
  takeWindows document (budget maxChars) maxWindows startChunk {}

def readResult (startChunk : Nat) (taken : List Chunk) (nextChunk : Option Nat) : PageRead where
  title := match taken.head? with
    | some chunk => if chunk.documentTitle = "" then "Untitled" else chunk.documentTitle
    | none => ""
  totalChunks := document.length
  startChunk := startChunk
  endChunk := match taken.getLast? with
    | some chunk => chunk.chunkOrder + 1
    | none => startChunk
  nextChunk := nextChunk
  text := stitch taken none

/-- `read`, for a scope that is not empty and a document key -/
def read (maxChars startChunk : Int) : Option PageRead :=
  let startChunk := (max 0 startChunk).toNat
  (readPage document maxChars startChunk).map fun (state, nextChunk) =>
    readResult document startChunk state.taken nextChunk

end

/-- The pages from a chunk on: whoever reads follows `nextChunk` of each until there is none. -/
inductive Pages (document : Document) (maxChars : Int) : Nat → List PageRead → Prop where
  /-- There is nothing that the caller may see. -/
  | unreadable {start : Nat} (missing : read document maxChars start = none) :
      Pages document maxChars start []
  | last {start : Nat} {page : PageRead} (isPage : read document maxChars start = some page)
      (ends : page.nextChunk = none) : Pages document maxChars start [page]
  | next {start following : Nat} {page : PageRead} {pages : List PageRead}
      (isPage : read document maxChars start = some page)
      (goesOn : page.nextChunk = some following) (later : Pages document maxChars following pages) :
      Pages document maxChars start (page :: pages)

/-- The page is made of these chunks: chunks of the document, or the heads of those that are larger
than a page. -/
structure Shows (document : Document) (maxChars : Int) (page : PageRead) (chunks : List Chunk) :
    Prop where
  ofDocument : ∀ chunk ∈ chunks, ∃ original ∈ document, headOf (budget maxChars) original = chunk
  text : page.text = stitch chunks none
  endChunk : page.endChunk =
    (chunks.getLast?.map fun chunk => chunk.chunkOrder + 1).getD page.startChunk

/-! ## What a page holds -/

/-- The numbers of the chunks, as they are read. -/
def ordersOf (chunks : List Chunk) : List Nat := chunks.map Chunk.chunkOrder

@[simp] theorem chunkOrder_headOf (maxChars : Nat) (chunk : Chunk) :
    (headOf maxChars chunk).chunkOrder = chunk.chunkOrder := by
  unfold headOf
  split <;> rfl

theorem mem_ordersOf {chunk : Chunk} {chunks : List Chunk} (member : chunk ∈ chunks) :
    chunk.chunkOrder ∈ ordersOf chunks := mem_map_of_mem member

theorem ordersOf_take (state : PageState) (maxChars : Nat) (chunk : Chunk) :
    ordersOf (state.take maxChars chunk).taken = ordersOf state.taken ++ [chunk.chunkOrder] := by
  unfold PageState.take ordersOf
  rw [map_append, map_singleton, chunkOrder_headOf]

/-- The page holds, of the visible numbers from `start` on, those below `bound`. -/
structure Holds (document : Document) (start bound : Nat) (state : PageState) : Prop where
  seen : ∀ order, order ∈ state.seen ↔ order ∈ ordersOf state.taken
  increasing : (ordersOf state.taken).Pairwise (· < ·)
  mem_iff : ∀ order, order ∈ ordersOf state.taken ↔
    order ∈ ordersOf document ∧ start ≤ order ∧ order < bound

/-- The page is read up to the rest of a window, which is in order. -/
structure Reading (document : Document) (start bound : Nat) (state : PageState)
    (rest : List Chunk) : Prop where
  seen : ∀ order, order ∈ state.seen ↔ order ∈ ordersOf state.taken
  increasing : (ordersOf state.taken).Pairwise (· < ·)
  visible : ∀ order, order ∈ ordersOf state.taken ∨ order ∈ ordersOf rest →
    order ∈ ordersOf document ∧ start ≤ order ∧ order < bound
  all : ∀ order ∈ ordersOf document, start ≤ order → order < bound →
    order ∈ ordersOf state.taken ∨ order ∈ ordersOf rest
  sorted : (ordersOf rest).Pairwise (· ≤ ·)
  below : ∀ order ∈ ordersOf state.taken, ∀ later ∈ ordersOf rest, order ≤ later

section Window

variable {document : Document} {start bound maxChars : Nat} {state : PageState} {chunk : Chunk}
  {rest : List Chunk}

theorem Reading.holds (reading : Reading document start bound state []) :
    Holds document start bound state := by
  refine ⟨reading.seen, reading.increasing, fun order => ⟨fun member => ?_, ?_⟩⟩
  · exact reading.visible order (.inl member)
  · rintro ⟨isVisible, after, before⟩
    rcases reading.all order isVisible after before with isTaken | isLeft
    · exact isTaken
    · cases isLeft

section

variable (reading : Reading document start bound state (chunk :: rest))

include reading

theorem Reading.skip (isSeen : chunk.chunkOrder ∈ state.seen) :
    Reading document start bound state rest := by
  refine ⟨reading.seen, reading.increasing, fun order member => ?_, fun order isVisible after before
    => ?_, (pairwise_cons.mp reading.sorted).2, fun order isTaken later isLater => ?_⟩
  · exact reading.visible order (member.imp_right (mem_cons_of_mem _))
  · rcases reading.all order isVisible after before with isTaken | isLeft
    · exact .inl isTaken
    · rcases mem_cons.mp isLeft with rfl | isLater
      · exact .inl ((reading.seen _).mp isSeen)
      · exact .inr isLater
  · exact reading.below order isTaken later (mem_cons_of_mem _ isLater)

section

variable (notSeen : chunk.chunkOrder ∉ state.seen)

include notSeen

theorem Reading.lt_of_notSeen : ∀ order ∈ ordersOf state.taken, order < chunk.chunkOrder := by
  intro order isTaken
  have atMost := reading.below order isTaken _ mem_cons_self
  have differs : order ≠ chunk.chunkOrder := by
    rintro rfl
    exact notSeen ((reading.seen _).mpr isTaken)
  omega

theorem Reading.take : Reading document start bound (state.take maxChars chunk) rest := by
  have sorted := pairwise_cons.mp reading.sorted
  refine ⟨fun order => ?_, ?_, fun order member => ?_, fun order isVisible after before => ?_,
    sorted.2, fun order isTaken later isLater => ?_⟩
  · rw [ordersOf_take, mem_append, mem_singleton, ← reading.seen]
    exact mem_cons.trans or_comm
  · rw [ordersOf_take, pairwise_append]
    refine ⟨reading.increasing, pairwise_singleton _ _, fun order isTaken other isOther => ?_⟩
    rw [mem_singleton.mp isOther]
    exact reading.lt_of_notSeen notSeen order isTaken
  · apply reading.visible
    rw [ordersOf_take, mem_append, mem_singleton] at member
    rcases member with (isTaken | rfl) | isLater
    · exact .inl isTaken
    · exact .inr mem_cons_self
    · exact .inr (mem_cons_of_mem _ isLater)
  · rw [ordersOf_take, mem_append, mem_singleton]
    rcases reading.all order isVisible after before with isTaken | isLeft
    · exact .inl (.inl isTaken)
    · rcases mem_cons.mp isLeft with rfl | isLater
      · exact .inl (.inr rfl)
      · exact .inr isLater
  · rw [ordersOf_take, mem_append, mem_singleton] at isTaken
    rcases isTaken with isTaken | rfl
    · exact reading.below order isTaken later (mem_cons_of_mem _ isLater)
    · exact sorted.1 later isLater

theorem Reading.holds_of_full : Holds document start chunk.chunkOrder state := by
  refine ⟨reading.seen, reading.increasing, fun order => ⟨fun isTaken => ?_, ?_⟩⟩
  · obtain ⟨isVisible, after, _⟩ := reading.visible order (.inl isTaken)
    exact ⟨isVisible, after, reading.lt_of_notSeen notSeen order isTaken⟩
  · rintro ⟨isVisible, after, before⟩
    have isChunk := reading.visible chunk.chunkOrder (.inr mem_cons_self)
    rcases reading.all order isVisible after (by omega) with isTaken | isLeft
    · exact isTaken
    · rcases mem_cons.mp isLeft with rfl | isLater
      · exact absurd before (Nat.lt_irrefl _)
      · have atMost := (pairwise_cons.mp reading.sorted).1 order isLater
        omega

end

end

/-- The next page starts after the first number of this one, and there is something to read. -/
structure Continues (document : Document) (start following : Nat) : Prop where
  after : start < following
  exists_later : ∃ order ∈ ordersOf document, following ≤ order

/-- Up to where a page holds what is there, by where the next one starts. -/
def HoldsUntil (document : Document) (start bound : Nat) (state : PageState) : Option Nat → Prop
  | none => Holds document start bound state
  | some following => Holds document start following state ∧ Continues document start following

theorem takeWindow_spec {after : PageState} {next : Option Nat}
    (reading : Reading document start bound state rest)
    (done : takeWindow maxChars rest state = (after, next)) :
    HoldsUntil document start bound after next := by
  induction rest generalizing state with
  | nil =>
    cases done
    exact reading.holds
  | cons chunk rest ih =>
    unfold takeWindow at done
    split at done
    · rename_i isSeen
      exact ih (reading.skip isSeen) done
    · rename_i notSeen
      split at done
      · rename_i isFull
        cases done
        refine ⟨reading.holds_of_full notSeen, ?_, chunk.chunkOrder, ?_, Nat.le_refl _⟩
        · simp only [Bool.and_eq_true, Bool.not_eq_true', isEmpty_eq_false_iff] at isFull
          obtain ⟨first, member⟩ := exists_mem_of_ne_nil _ isFull.1
          have isTaken := mem_ordersOf member
          have isVisible := reading.visible _ (.inl isTaken)
          have isBefore := reading.lt_of_notSeen notSeen _ isTaken
          omega
        · exact (reading.visible _ (.inr mem_cons_self)).1
      · exact ih (reading.take notSeen) done

end Window

/-! ## The windows of a page -/

section Windows

variable {document : Document} {start cursor maxChars : Nat} {state : PageState}

theorem mem_chunkWindow {order : Nat} (readable : document.length ≠ 0) :
    order ∈ ordersOf (document.chunkWindow cursor readWindow).1 ↔
      order ∈ ordersOf document ∧ cursor ≤ order ∧ order < cursor + readWindow := by
  unfold Document.chunkWindow ordersOf
  rw [if_neg readable]
  simp only [mem_map, mem_mergeSort, mem_filter, Bool.and_eq_true, decide_eq_true_eq]
  constructor
  · rintro ⟨chunk, ⟨member, inside⟩, rfl⟩
    exact ⟨⟨chunk, member, rfl⟩, inside⟩
  · rintro ⟨⟨chunk, member, rfl⟩, inside⟩
    exact ⟨chunk, ⟨member, inside⟩, rfl⟩

theorem sorted_chunkWindow : (ordersOf (document.chunkWindow cursor readWindow).1).Pairwise
    (· ≤ ·) := by
  unfold Document.chunkWindow
  split
  · exact Pairwise.nil
  · refine pairwise_map.mpr ?_
    have sorted := @pairwise_mergeSort Chunk
      (fun a b => decide (a.chunkOrder ≤ b.chunkOrder))
      (fun a b c first second => decide_eq_true
        (Nat.le_trans (of_decide_eq_true first) (of_decide_eq_true second)))
      (fun a b => by simp only [Bool.or_eq_true, decide_eq_true_eq]; omega)
    exact (sorted _).imp of_decide_eq_true

theorem Holds.reading (holds : Holds document start cursor state) (started : start ≤ cursor)
    (readable : document.length ≠ 0) :
    Reading document start (cursor + readWindow) state
      (document.chunkWindow cursor readWindow).1 := by
  refine ⟨holds.seen, holds.increasing, fun order member => ?_, fun order isVisible after before
    => ?_, sorted_chunkWindow, fun order isTaken later isLater => ?_⟩
  · rcases member with isTaken | isNext
    · obtain ⟨isVisible, after, before⟩ := (holds.mem_iff order).mp isTaken
      exact ⟨isVisible, after, by omega⟩
    · obtain ⟨isVisible, after, before⟩ := (mem_chunkWindow readable).mp isNext
      exact ⟨isVisible, by omega, before⟩
  · by_cases isEarlier : order < cursor
    · exact .inl ((holds.mem_iff order).mpr ⟨isVisible, after, isEarlier⟩)
    · exact .inr ((mem_chunkWindow readable).mpr ⟨isVisible, by omega, before⟩)
  · have before := ((holds.mem_iff order).mp isTaken).2.2
    have after := ((mem_chunkWindow readable).mp isLater).2.1
    omega

theorem Holds.gap (holds : Holds document start cursor state) (readable : document.length ≠ 0)
    (isGap : (document.chunkWindow cursor readWindow).1 = []) :
    Holds document start (cursor + readWindow) state := by
  refine ⟨holds.seen, holds.increasing, fun order => ?_⟩
  rw [holds.mem_iff]
  constructor
  · rintro ⟨isVisible, after, before⟩
    exact ⟨isVisible, after, by omega⟩
  · rintro ⟨isVisible, after, before⟩
    refine ⟨isVisible, after, Nat.lt_of_not_le fun late => ?_⟩
    have isNext := (mem_chunkWindow readable).mpr ⟨isVisible, late, before⟩
    rw [isGap] at isNext
    cases isNext

theorem hasChunksFrom_iff : document.hasChunksFrom cursor = true ↔
    ∃ order ∈ ordersOf document, cursor ≤ order := by
  unfold Document.hasChunksFrom ordersOf
  simp [any_eq_true]

theorem Holds.rest (holds : Holds document start cursor state)
    (ended : ¬document.hasChunksFrom cursor = true) :
    ∀ order, order ∈ ordersOf state.taken ↔ order ∈ ordersOf document ∧ start ≤ order := by
  intro order
  rw [holds.mem_iff]
  constructor
  · rintro ⟨isVisible, after, _⟩
    exact ⟨isVisible, after⟩
  · rintro ⟨isVisible, after⟩
    refine ⟨isVisible, after, Nat.lt_of_not_le fun late => ended ?_⟩
    exact hasChunksFrom_iff.mpr ⟨order, isVisible, late⟩

structure HoldsPage (document : Document) (start : Nat) (state : PageState) (next : Option Nat) :
    Prop where
  increasing : (ordersOf state.taken).Pairwise (· < ·)
  mem_iff : ∀ order, order ∈ ordersOf state.taken ↔
    order ∈ ordersOf document ∧ start ≤ order ∧ ∀ following, next = some following → order < following
  continues : ∀ following, next = some following → Continues document start following

theorem Holds.page_end (holds : Holds document start cursor state)
    (ended : ¬document.hasChunksFrom cursor = true) : HoldsPage document start state none := by
  refine ⟨holds.increasing, fun order => ?_, nofun⟩
  rw [holds.rest ended]
  constructor
  · rintro ⟨isVisible, after⟩
    exact ⟨isVisible, after, nofun⟩
  · rintro ⟨isVisible, after, _⟩
    exact ⟨isVisible, after⟩

theorem Holds.page_next {following : Nat} (holds : Holds document start following state)
    (continues : Continues document start following) :
    HoldsPage document start state (some following) := by
  refine ⟨holds.increasing, fun order => ?_, fun next same => Option.some.inj same ▸ continues⟩
  rw [holds.mem_iff]
  constructor
  · rintro ⟨isVisible, after, before⟩
    exact ⟨isVisible, after, fun next same => Option.some.inj same ▸ before⟩
  · rintro ⟨isVisible, after, before⟩
    exact ⟨isVisible, after, before following rfl⟩

variable {after : PageState} {next : Option Nat} {windows : Nat}

/-- **A page holds what is visible between its start and that of the next page.** -/
theorem takeWindows_spec (holds : Holds document start cursor state) (started : start ≤ cursor)
    (moved : start < cursor ∨ 0 < windows)
    (done : takeWindows document maxChars windows cursor state = some (after, next)) :
    HoldsPage document start after next := by
  induction windows generalizing cursor state with
  | zero =>
    cases done
    split
    · rename_i isLater
      refine holds.page_next ⟨?_, hasChunksFrom_iff.mp isLater⟩
      rcases moved with moved | impossible
      · exact moved
      · exact absurd impossible (Nat.lt_irrefl 0)
    · rename_i ended
      exact holds.page_end ended
  | succ windows ih =>
    have further : start < cursor + readWindow := by
      unfold readWindow
      omega
    unfold takeWindows at done
    dsimp only at done
    split at done
    · cases done
    · rename_i notEmpty
      have readable : document.length ≠ 0 := by
        intro isEmpty
        apply notEmpty
        rw [Document.chunkWindow, if_pos isEmpty]
      split at done
      · rename_i isGap
        have passed := holds.gap readable (isEmpty_iff.mp isGap)
        split at done
        · exact ih passed (Nat.le_of_lt further) (.inl further) done
        · rename_i ended
          cases done
          exact passed.page_end ended
      · have reading := holds.reading started readable
        split at done
        · rename_i full following isFull
          cases done
          obtain ⟨isHeld, continues⟩ := takeWindow_spec reading isFull
          exact isHeld.page_next continues
        · rename_i read isRead
          exact ih (takeWindow_spec reading isRead) (Nat.le_of_lt further) (.inl further) done

theorem readPage_spec {limit : Int} (done : readPage document limit start = some (after, next)) :
    HoldsPage document start after next := by
  have empty : Holds document start start {} := by
    refine ⟨fun order => Iff.rfl, Pairwise.nil, fun order => ⟨fun member => ?_, ?_⟩⟩
    · cases member
    · rintro ⟨_, after, before⟩
      omega
  exact takeWindows_spec empty (Nat.le_refl start) (.inr (by decide)) done

theorem takeWindows_eq_none (missing : takeWindows document maxChars windows cursor state = none) :
    document = [] := by
  induction windows generalizing cursor state with
  | zero => cases missing
  | succ windows ih =>
    unfold takeWindows at missing
    dsimp only at missing
    split at missing
    · rename_i isEmpty
      unfold Document.chunkWindow at isEmpty
      split at isEmpty
      · rename_i noChunks
        exact length_eq_zero_iff.mp noChunks
      · rename_i someChunks
        exact absurd isEmpty someChunks
    · split at missing
      · split at missing
        · exact ih missing
        · cases missing
      · split at missing
        · cases missing
        · exact ih missing

/-! ## What a page is made of -/

def Heads (document : Document) (maxChars : Nat) (chunks : List Chunk) : Prop :=
  ∀ chunk ∈ chunks, ∃ original ∈ document, headOf maxChars original = chunk

theorem heads_takeWindow {rest : List Chunk} (heads : Heads document maxChars state.taken)
    (inside : rest ⊆ document) (done : takeWindow maxChars rest state = (after, next)) :
    Heads document maxChars after.taken := by
  induction rest generalizing state with
  | nil =>
    cases done
    exact heads
  | cons chunk rest ih =>
    obtain ⟨isChunk, areChunks⟩ := cons_subset.mp inside
    unfold takeWindow at done
    split at done
    · exact ih heads areChunks done
    · split at done
      · cases done
        exact heads
      · refine ih (fun shown member => ?_) areChunks done
        rcases mem_append.mp member with old | new
        · exact heads shown old
        · exact ⟨chunk, isChunk, (mem_singleton.mp new).symm⟩

theorem chunkWindow_subset : (document.chunkWindow cursor readWindow).1 ⊆ document := by
  intro chunk member
  unfold Document.chunkWindow at member
  split at member
  · cases member
  · exact mem_of_mem_filter (mem_mergeSort.mp member)

theorem heads_takeWindows (heads : Heads document maxChars state.taken)
    (done : takeWindows document maxChars windows cursor state = some (after, next)) :
    Heads document maxChars after.taken := by
  induction windows generalizing cursor state with
  | zero =>
    cases done
    exact heads
  | succ windows ih =>
    unfold takeWindows at done
    dsimp only at done
    split at done
    · cases done
    · split at done
      · split at done
        · exact ih heads done
        · cases done
          exact heads
      · split at done
        · rename_i full following isFull
          cases done
          exact heads_takeWindow heads chunkWindow_subset isFull
        · rename_i taken isTaken
          exact ih (heads_takeWindow heads chunkWindow_subset isTaken) done

/-- **What `read` returns** is made of chunks that hold the visible numbers from its start to where it
says that the next page starts. -/
theorem read_spec {limit : Int} {page : PageRead} (isPage : read document limit start = some page) :
    ∃ state, Shows document limit page state.taken ∧
      HoldsPage document start state page.nextChunk := by
  obtain ⟨⟨state, next⟩, done, rfl⟩ := Option.map_eq_some_iff.mp isPage
  rw [Int.max_eq_right (Int.natCast_nonneg start), Int.toNat_natCast] at done ⊢
  refine ⟨state, ⟨heads_takeWindows (fun _ none => absurd none not_mem_nil) done, rfl, ?_⟩,
    readPage_spec done⟩
  simp only [readResult]
  cases state.taken.getLast? <;> rfl

theorem eq_nil_of_read {limit : Int} (missing : read document limit start = none) : document = [] :=
  takeWindows_eq_none (Option.map_eq_none_iff.mp missing)

end Windows

theorem exists_pages_from (document : Document) (limit : Int) (left start : Nat)
    (bounded : ∀ order ∈ ordersOf document, order < start + left) :
    ∃ pages chunks, Pages document limit start pages ∧ Forall₂ (Shows document limit) pages chunks ∧
      (ordersOf chunks.flatten).Pairwise (· < ·) ∧
      ∀ order, order ∈ ordersOf chunks.flatten ↔ order ∈ ordersOf document ∧ start ≤ order := by
  induction left using Nat.strong_induction_on generalizing start with
  | _ left ih =>
    cases isPage : read document limit start with
    | none =>
      have noChunks : document = [] := eq_nil_of_read isPage
      refine ⟨[], [], .unreadable isPage, .nil, Pairwise.nil, fun order => ?_⟩
      rw [noChunks]
      exact ⟨fun member => absurd member not_mem_nil, fun member => absurd member.1 not_mem_nil⟩
    | some page =>
      obtain ⟨state, shows, holds⟩ := read_spec isPage
      cases next : page.nextChunk with
      | none =>
        rw [next] at holds
        refine ⟨[page], [state.taken], .last isPage next, .cons shows .nil, ?_, fun order => ?_⟩
        · rw [flatten_singleton]
          exact holds.increasing
        · rw [flatten_singleton, holds.mem_iff]
          exact ⟨fun ⟨isVisible, after, _⟩ => ⟨isVisible, after⟩,
            fun ⟨isVisible, after⟩ => ⟨isVisible, after, nofun⟩⟩
      | some following =>
        rw [next] at holds
        obtain ⟨after, later, isLater, notBefore⟩ := holds.continues following rfl
        have isBounded := bounded later isLater
        obtain ⟨pages, chunks, arePages, shown, increasing, mem_iff⟩ := ih (start + left - following)
          (by omega) following fun order isVisible => by
            have isBelow := bounded order isVisible
            omega
        refine ⟨page :: pages, state.taken :: chunks, .next isPage next arePages, .cons shows shown, ?_,
          fun order => ?_⟩
        · rw [flatten_cons, ordersOf, map_append, pairwise_append]
          refine ⟨holds.increasing, increasing, fun order isHere other isThere => ?_⟩
          have before := ((holds.mem_iff order).mp isHere).2.2 following rfl
          have notEarlier := ((mem_iff other).mp isThere).2
          omega
        · rw [flatten_cons, ordersOf, map_append, mem_append]
          change order ∈ ordersOf state.taken ∨ order ∈ ordersOf chunks.flatten ↔ _
          rw [holds.mem_iff, mem_iff]
          constructor
          · rintro (⟨isVisible, from_start, _⟩ | ⟨isVisible, from_following⟩)
            · exact ⟨isVisible, from_start⟩
            · exact ⟨isVisible, by omega⟩
          · rintro ⟨isVisible, from_start⟩
            by_cases isHere : order < following
            · exact .inl ⟨isVisible, from_start, fun next same => Option.some.inj same ▸ isHere⟩
            · exact .inr ⟨isVisible, by omega⟩

/-- **The pages of a document hold every visible chunk number once, in increasing order**: following
`nextChunk` from the first chunk on comes to an end, and nothing is left. -/
theorem exists_pages (document : Document) (maxChars : Int) :
    ∃ pages chunks, Pages document maxChars 0 pages ∧
      Forall₂ (Shows document maxChars) pages chunks ∧ (ordersOf chunks.flatten).Pairwise (· < ·) ∧
      ∀ order, order ∈ ordersOf chunks.flatten ↔ order ∈ ordersOf document := by
  obtain ⟨bound, within⟩ := Finset.exists_nat_subset_range (ordersOf document).toFinset
  have bounded : ∀ order ∈ ordersOf document, order < 0 + bound := by
    intro order member
    rw [Nat.zero_add]
    exact Finset.mem_range.mp (within (mem_toFinset.mpr member))
  obtain ⟨pages, chunks, arePages, shown, increasing, mem_iff⟩ :=
    exists_pages_from document maxChars bound 0 bounded
  exact ⟨pages, chunks, arePages, shown, increasing, fun order => (mem_iff order).trans
    ⟨And.left, fun isVisible => ⟨isVisible, Nat.zero_le order⟩⟩⟩

end RedArchKM.Text
