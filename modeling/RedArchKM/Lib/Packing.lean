import Mathlib.Algebra.GroupWithZero.Nat
import Mathlib.Algebra.BigOperators.Group.List.Basic
import Mathlib.Data.List.DropRight

/-!
# Packing a list into overlapping blocks

Items of some weight are packed, in order, into blocks of limited weight. An item that fits beside
the block is added to it. One that does not closes the block, and a tail of the block opens the next
one; one that is too heavy for any block stands alone, and the next block opens empty.

If an item does not fit beside the tail either, packing closes that tail as a block of its own and
is where it was before: it never ends. `Fits` says of the items that this does not happen. Packing
ends exactly if they fit (`loop_eq_some_iff`), and then takes `rounds` rounds, at most two for each
item (`rounds_le`); and every block is a tail of the one before, followed by new items that are next
in line (`covers_pack`).
-/

namespace RedArchKM.Lib

open List

variable {α : Type}

/-- How items are packed. The tail of a block is taken from its end alone, so longer blocks that end
alike have the same tail if a shorter one holds it, and one more item makes it no longer. -/
structure Packing (α : Type) where
  weight : α → Nat
  size : Nat
  tail : List α → List α
  tail_suffix : ∀ block, tail block <:+ block
  tail_local : ∀ {block longer}, tail longer <:+ block → block <:+ longer → tail block = tail longer
  tail_append : ∀ block item, tail (block ++ [item]) <:+ tail block ++ [item]

namespace Packing

variable (packing : Packing α)

def total (block : List α) : Nat := (block.map packing.weight).sum

@[simp] theorem total_nil : packing.total [] = 0 := rfl

@[simp] theorem total_append (block more : List α) :
    packing.total (block ++ more) = packing.total block + packing.total more := by
  simp [total]

@[simp] theorem total_singleton (item : α) : packing.total [item] = packing.weight item := by
  simp [total]

variable {block items before shared : List α} {blocks : List (List α)}

theorem total_le_of_suffix {longer : List α} (suffix : block <:+ longer) :
    packing.total block ≤ packing.total longer := by
  obtain ⟨before, rfl⟩ := suffix
  rw [total_append]
  exact Nat.le_add_left _ _

theorem tail_tail (block : List α) : packing.tail (packing.tail block) = packing.tail block :=
  packing.tail_local (suffix_refl _) (packing.tail_suffix block)

@[simp] theorem tail_nil : packing.tail [] = [] := suffix_nil.mp (packing.tail_suffix [])

/-! ## The packing loop -/

/-- The block, if there is one. -/
def closed (block : List α) : List (List α) := if block.isEmpty then [] else [block]

@[simp] theorem closed_nil : closed ([] : List α) = [] := rfl

theorem closed_of_ne_nil (isBlock : block ≠ []) : closed block = [block] := by
  cases block with
  | nil => exact absurd rfl isBlock
  | cons item rest => rfl

/-- The blocks, if they are packed within some rounds. -/
def loop : Nat → List (List α) → List α → List α → Option (List (List α))
  | _, blocks, block, [] => some (blocks ++ closed block)
  | 0, _, _, _ :: _ => none
  | fuel + 1, blocks, block, item :: rest =>
    if packing.weight item > packing.size then
      loop fuel (blocks ++ closed block ++ [[item]]) [] rest
    else if packing.total block + packing.weight item ≤ packing.size then
      loop fuel blocks (block ++ [item]) rest
    else loop fuel (blocks ++ [block]) (packing.tail block) (item :: rest)

section LoopRounds

variable {fuel : Nat} {blocks : List (List α)} {block rest : List α} {item : α}

theorem loop_nil : packing.loop fuel blocks block [] = some (blocks ++ closed block) := by
  unfold loop
  rfl

theorem loop_heavy (heavy : packing.weight item > packing.size) :
    packing.loop (fuel + 1) blocks block (item :: rest) =
      packing.loop fuel (blocks ++ closed block ++ [[item]]) [] rest := if_pos heavy

theorem loop_beside (light : ¬packing.weight item > packing.size)
    (beside : packing.total block + packing.weight item ≤ packing.size) :
    packing.loop (fuel + 1) blocks block (item :: rest) =
      packing.loop fuel blocks (block ++ [item]) rest :=
  (if_neg light).trans (if_pos beside)

theorem loop_close (light : ¬packing.weight item > packing.size)
    (beside : ¬packing.total block + packing.weight item ≤ packing.size) :
    packing.loop (fuel + 1) blocks block (item :: rest) =
      packing.loop fuel (blocks ++ [block]) (packing.tail block) (item :: rest) :=
  (if_neg light).trans (if_neg beside)

end LoopRounds

/-- The blocks, if no item is ever left beside a tail. -/
def pack : List α → List α → List (List α)
  | block, [] => closed block
  | block, item :: rest =>
    if packing.weight item > packing.size then closed block ++ [item] :: pack [] rest
    else if packing.total block + packing.weight item ≤ packing.size then
      pack (block ++ [item]) rest
    else block :: pack (packing.tail block ++ [item]) rest

/-- One round for an item, and one more if it closes a block. -/
def rounds : List α → List α → Nat
  | _, [] => 0
  | block, item :: rest =>
    if packing.weight item > packing.size then rounds [] rest + 1
    else if packing.total block + packing.weight item ≤ packing.size then
      rounds (block ++ [item]) rest + 1
    else rounds (packing.tail block ++ [item]) rest + 2

theorem rounds_le (block items : List α) : packing.rounds block items ≤ 2 * items.length := by
  induction items generalizing block with
  | nil => exact Nat.le_refl 0
  | cons item rest ih =>
    unfold rounds
    rw [length_cons]
    split
    · have later := ih []
      omega
    · split
      · have later := ih (block ++ [item])
        omega
      · have later := ih (packing.tail block ++ [item])
        omega

/-- No item is left beside a tail. -/
def FitsFrom : List α → List α → Prop
  | _, [] => True
  | block, item :: rest =>
    if packing.weight item > packing.size then FitsFrom [] rest
    else if packing.total block + packing.weight item ≤ packing.size then
      FitsFrom (block ++ [item]) rest
    else packing.total (packing.tail block) + packing.weight item ≤ packing.size ∧
      FitsFrom (packing.tail block ++ [item]) rest

instance decidableFitsFrom : ∀ block items, Decidable (packing.FitsFrom block items)
  | _, [] => .isTrue trivial
  | block, item :: rest =>
    let _ := decidableFitsFrom [] rest
    let _ := decidableFitsFrom (block ++ [item]) rest
    let _ := decidableFitsFrom (packing.tail block ++ [item]) rest
    inferInstanceAs (Decidable (ite _ _ _))

variable {fuel : Nat} {item : α} {new : List α}

/-- **Packing ends where no item is left beside a tail**, if there are enough rounds. -/
theorem loop_of_fitsFrom (fits : packing.FitsFrom block items)
    (enough : packing.rounds block items ≤ fuel) :
    packing.loop fuel blocks block items = some (blocks ++ packing.pack block items) := by
  induction items generalizing fuel blocks block with
  | nil => unfold loop pack; rfl
  | cons item rest ih =>
    unfold FitsFrom at fits
    unfold rounds at enough
    unfold pack
    by_cases heavy : packing.weight item > packing.size
    · rw [if_pos heavy] at fits enough ⊢
      obtain ⟨fuel, rfl⟩ := Nat.exists_eq_succ_of_ne_zero (by omega : fuel ≠ 0)
      rw [packing.loop_heavy heavy, ih fits (by omega)]
      simp only [append_assoc, singleton_append]
    · rw [if_neg heavy] at fits enough ⊢
      by_cases beside : packing.total block + packing.weight item ≤ packing.size
      · rw [if_pos beside] at fits enough ⊢
        obtain ⟨fuel, rfl⟩ := Nat.exists_eq_succ_of_ne_zero (by omega : fuel ≠ 0)
        rw [packing.loop_beside heavy beside, ih fits (by omega)]
      · rw [if_neg beside] at fits enough ⊢
        obtain ⟨fuel, rfl⟩ := Nat.exists_eq_add_of_le (by omega : 2 ≤ fuel)
        rw [Nat.add_comm 2 fuel, packing.loop_close heavy beside,
          packing.loop_beside heavy fits.1, ih fits.2 (by omega)]
        simp only [append_assoc, singleton_append]

theorem loop_of_stuck {rest : List α} (light : ¬packing.weight item > packing.size)
    (stuck : ¬packing.total (packing.tail block) + packing.weight item ≤ packing.size) :
    packing.loop fuel blocks (packing.tail block) (item :: rest) = none := by
  induction fuel generalizing blocks with
  | zero => rfl
  | succ fuel ih =>
    rw [packing.loop_close light stuck, packing.tail_tail]
    exact ih

/-- **Packing ends nowhere else**, and not in fewer rounds. -/
theorem fitsFrom_of_loop {result : List (List α)}
    (ended : packing.loop fuel blocks block items = some result) :
    packing.FitsFrom block items ∧ packing.rounds block items ≤ fuel := by
  induction items generalizing fuel blocks block with
  | nil => exact ⟨trivial, Nat.zero_le fuel⟩
  | cons item rest ih =>
    cases fuel with
    | zero => cases ended
    | succ fuel =>
      unfold FitsFrom rounds
      by_cases heavy : packing.weight item > packing.size
      · rw [packing.loop_heavy heavy] at ended
        rw [if_pos heavy, if_pos heavy]
        obtain ⟨fits, enough⟩ := ih ended
        exact ⟨fits, by omega⟩
      · rw [if_neg heavy, if_neg heavy]
        by_cases beside : packing.total block + packing.weight item ≤ packing.size
        · rw [packing.loop_beside heavy beside] at ended
          rw [if_pos beside, if_pos beside]
          obtain ⟨fits, enough⟩ := ih ended
          exact ⟨fits, by omega⟩
        · rw [packing.loop_close heavy beside] at ended
          rw [if_neg beside, if_neg beside]
          by_cases fitsTail :
              packing.total (packing.tail block) + packing.weight item ≤ packing.size
          · cases fuel with
            | zero => cases ended
            | succ fuel =>
              rw [packing.loop_beside heavy fitsTail] at ended
              obtain ⟨fits, enough⟩ := ih ended
              exact ⟨⟨fitsTail, fits⟩, by omega⟩
          · rw [packing.loop_of_stuck heavy fitsTail] at ended
            cases ended

/-! ## Which items fit -/

/-- The items since the last one that is too heavy for any block. -/
def run (items : List α) : List α := items.rtakeWhile fun item => packing.weight item ≤ packing.size

/-- **Every item that is not too heavy fits beside the tail of what is before it.** -/
def Fits (items : List α) : Prop :=
  ∀ before item rest, items = before ++ item :: rest → packing.weight item ≤ packing.size →
    packing.total (packing.tail (packing.run before)) + packing.weight item ≤ packing.size

theorem run_append_heavy (heavy : packing.weight item > packing.size) :
    packing.run (before ++ [item]) = [] :=
  rtakeWhile_concat_neg _ _ _ (by simpa using heavy)

theorem run_append_light (light : ¬packing.weight item > packing.size) :
    packing.run (before ++ [item]) = packing.run before ++ [item] :=
  rtakeWhile_concat_pos _ _ _ (by simpa using light)

theorem run_append (light : ∀ item ∈ shared, ¬packing.weight item > packing.size) :
    packing.run (before ++ shared) = packing.run before ++ shared := by
  induction shared using List.reverseRecOn with
  | nil => rw [append_nil, append_nil]
  | append_singleton shared item ih =>
    rw [← append_assoc, packing.run_append_light (light item (by simp)),
      ih fun other member => light other (mem_append_left _ member), append_assoc]

theorem light_of_mem_run (member : item ∈ packing.run items) :
    packing.weight item ≤ packing.size := by
  have light := mem_rtakeWhile_imp member
  exact of_decide_eq_true light

theorem run_suffix (items : List α) : packing.run items <:+ items := rtakeWhile_suffix _ _

structure Current (before block : List α) : Prop where
  suffix : block <:+ packing.run before
  holds : packing.tail (packing.run before) <:+ block

theorem Current.tail_eq {packing : Packing α} (current : packing.Current before block) :
    packing.tail block = packing.tail (packing.run before) :=
  packing.tail_local current.holds current.suffix

theorem Current.append {packing : Packing α} (current : packing.Current before block)
    (light : ¬packing.weight item > packing.size) :
    packing.Current (before ++ [item]) (block ++ [item]) := by
  refine ⟨?_, ?_⟩ <;> rw [packing.run_append_light light]
  · obtain ⟨earlier, same⟩ := current.suffix
    exact ⟨earlier, by rw [← same, append_assoc]⟩
  · obtain ⟨earlier, same⟩ := current.holds
    refine (packing.tail_append _ item).trans ⟨earlier, ?_⟩
    rw [← same, append_assoc]

theorem Current.tail {packing : Packing α} {before block : List α}
    (current : packing.Current before block) : packing.Current before (packing.tail block) := by
  rw [current.tail_eq]
  exact ⟨packing.tail_suffix _, suffix_refl _⟩

theorem Current.heavy {packing : Packing α} {before : List α} {item : α}
    (heavy : packing.weight item > packing.size) : packing.Current (before ++ [item]) [] := by
  have restarts : packing.tail (packing.run (before ++ [item])) = [] := by
    rw [packing.run_append_heavy heavy, packing.tail_nil]
  exact ⟨nil_suffix, restarts.symm ▸ suffix_refl []⟩

theorem fitsFrom_iff (current : packing.Current before block) :
    packing.FitsFrom block items ↔
      ∀ middle item rest, items = middle ++ item :: rest → packing.weight item ≤ packing.size →
        packing.total (packing.tail (packing.run (before ++ middle))) + packing.weight item ≤
          packing.size := by
  induction items generalizing before block with
  | nil =>
    refine ⟨fun _ middle item rest same => ?_, fun _ => trivial⟩
    exact absurd same.symm (append_ne_nil_of_right_ne_nil _ (cons_ne_nil _ _))
  | cons first others ih =>
    -- what the claim says of the first item, and of the later ones
    have split : (∀ middle item rest, first :: others = middle ++ item :: rest →
        packing.weight item ≤ packing.size →
          packing.total (packing.tail (packing.run (before ++ middle))) + packing.weight item ≤
            packing.size) ↔
        (packing.weight first ≤ packing.size →
          packing.total (packing.tail (packing.run before)) + packing.weight first ≤ packing.size) ∧
        ∀ middle item rest, others = middle ++ item :: rest → packing.weight item ≤ packing.size →
          packing.total (packing.tail (packing.run (before ++ [first] ++ middle))) +
            packing.weight item ≤ packing.size := by
      constructor
      · intro all
        refine ⟨fun light => ?_, fun middle item rest same light => ?_⟩
        · have here := all [] first others rfl light
          rwa [append_nil] at here
        · have later := all (first :: middle) item rest (by rw [same]; rfl) light
          rwa [append_assoc, singleton_append]
      · rintro ⟨here, later⟩ middle item rest same light
        cases middle with
        | nil =>
          cases same
          rw [append_nil]
          exact here light
        | cons head middle =>
          obtain ⟨rfl, isRest⟩ := List.cons.inj same
          have isLater := later middle item rest isRest light
          rwa [append_assoc, singleton_append] at isLater
    rw [split]
    unfold FitsFrom
    by_cases heavy : packing.weight first > packing.size
    · rw [if_pos heavy, ih (Current.heavy heavy)]
      exact ⟨fun later => ⟨fun light => absurd light (Nat.not_le.mpr heavy), later⟩, And.right⟩
    · have light : packing.weight first ≤ packing.size := Nat.not_lt.mp heavy
      have smaller := packing.total_le_of_suffix (packing.tail_suffix block)
      rw [if_neg heavy]
      by_cases beside : packing.total block + packing.weight first ≤ packing.size
      · rw [if_pos beside, ih (current.append heavy)]
        refine ⟨fun later => ⟨fun _ => ?_, later⟩, And.right⟩
        rw [← current.tail_eq]
        omega
      · rw [if_neg beside, ih (current.tail.append heavy), current.tail_eq]
        exact ⟨fun ⟨here, later⟩ => ⟨fun _ => here, later⟩,
          fun ⟨here, later⟩ => ⟨here light, later⟩⟩

theorem fitsFrom_nil_iff : packing.FitsFrom [] items ↔ packing.Fits items := by
  have atStart : packing.Current [] [] := by
    have isEmpty : packing.tail (packing.run []) = [] := by
      rw [run, rtakeWhile_nil, packing.tail_nil]
    exact ⟨nil_suffix, isEmpty.symm ▸ suffix_refl []⟩
  exact packing.fitsFrom_iff atStart

/-- **Packing ends exactly if the items fit**, and then with the packed blocks. -/
theorem loop_eq_some_iff {result : List (List α)} :
    packing.loop fuel [] [] items = some result ↔
      packing.Fits items ∧ packing.rounds [] items ≤ fuel ∧ result = packing.pack [] items := by
  constructor
  · intro ended
    obtain ⟨fits, enough⟩ := packing.fitsFrom_of_loop ended
    rw [packing.loop_of_fitsFrom fits enough] at ended
    exact ⟨packing.fitsFrom_nil_iff.mp fits, enough, (Option.some.inj ended).symm⟩
  · rintro ⟨fits, enough, rfl⟩
    exact packing.loop_of_fitsFrom (packing.fitsFrom_nil_iff.mpr fits) enough

/-! ## What the blocks hold -/

/-- The blocks are the items in order: each opens with what it shares with the block before it, and
goes on with items that are next. -/
inductive Covers (Shares : List α → List α → Prop) (Limited : List α → Prop) :
    List α → List (List α) → List α → Prop where
  | nil {previous : List α} : Covers Shares Limited previous [] []
  | block {previous shared new items : List α} {blocks : List (List α)}
      (shares : Shares previous shared) (isNew : new ≠ []) (limited : Limited (shared ++ new))
      (later : Covers Shares Limited (shared ++ new) blocks items) :
      Covers Shares Limited previous ((shared ++ new) :: blocks) (new ++ items)

namespace Covers

variable {Shares : List α → List α → Prop} {Limited : List α → Prop} {previous items : List α}
  {blocks : List (List α)}

theorem mem (covers : Covers Shares Limited previous blocks items) {item : α}
    (member : item ∈ items) : ∃ block ∈ blocks, item ∈ block := by
  induction covers with
  | nil => cases member
  | block _ _ _ _ ih =>
    rcases mem_append.mp member with isNew | isLater
    · exact ⟨_, mem_cons_self, mem_append_right _ isNew⟩
    · obtain ⟨block, isBlock, inBlock⟩ := ih isLater
      exact ⟨block, mem_cons_of_mem _ isBlock, inBlock⟩

theorem mono {Shares' : List α → List α → Prop} {Limited' : List α → Prop}
    (covers : Covers Shares Limited previous blocks items)
    (shares : ∀ previous shared, Shares previous shared → Shares' previous shared)
    (limited : ∀ block, Limited block → Limited' block) :
    Covers Shares' Limited' previous blocks items := by
  induction covers with
  | nil => exact .nil
  | block isShared isNew isLimited _ ih =>
    exact .block (shares _ _ isShared) isNew (limited _ isLimited) ih

end Covers

/-- A block shares nothing with the one before it, or its tail. -/
def Shares (previous shared : List α) : Prop := shared = [] ∨ shared = packing.tail previous

def Limited (block : List α) : Prop :=
  packing.total block ≤ packing.size ∨ ∃ item, block = [item]

theorem covers_closed {previous : List α} (shares : packing.Shares previous shared)
    (isNew : new = [] → shared = []) (limited : packing.total (shared ++ new) ≤ packing.size)
    (later : ∀ last, Covers packing.Shares packing.Limited last blocks items) :
    Covers packing.Shares packing.Limited previous (closed (shared ++ new) ++ blocks)
      (new ++ items) := by
  by_cases isEmpty : new = []
  · rw [isEmpty, isNew isEmpty]
    exact later previous
  · rw [closed_of_ne_nil (append_ne_nil_of_right_ne_nil _ isEmpty)]
    exact .block shares isEmpty (.inl limited) (later _)

/-- **The packed blocks cover the items.** -/
theorem covers_pack {previous : List α} (fits : packing.FitsFrom (shared ++ new) items)
    (shares : packing.Shares previous shared) (isNew : new = [] → shared = [])
    (limited : packing.total (shared ++ new) ≤ packing.size) :
    Covers packing.Shares packing.Limited previous (packing.pack (shared ++ new) items)
      (new ++ items) := by
  induction items generalizing previous shared new with
  | nil =>
    have covers := packing.covers_closed shares isNew limited fun last => .nil
    rwa [append_nil] at covers
  | cons item rest ih =>
    unfold FitsFrom at fits
    unfold pack
    by_cases heavy : packing.weight item > packing.size
    · rw [if_pos heavy] at fits ⊢
      refine packing.covers_closed shares isNew limited fun last => ?_
      have later : Covers packing.Shares packing.Limited ([] ++ [item])
          (packing.pack ([] ++ []) rest) ([] ++ rest) :=
        ih fits (.inl rfl) (fun _ => rfl) (Nat.zero_le _)
      have alone : Covers packing.Shares packing.Limited last
          (([] ++ [item]) :: packing.pack [] rest) ([item] ++ rest) :=
        .block (.inl rfl) (cons_ne_nil item []) (.inr ⟨item, rfl⟩) later
      exact alone
    · rw [if_neg heavy] at fits ⊢
      by_cases beside : packing.total (shared ++ new) + packing.weight item ≤ packing.size
      · rw [if_pos beside] at fits ⊢
        rw [append_assoc] at fits ⊢
        have covers := ih fits shares
          (fun isEmpty => absurd isEmpty (append_ne_nil_of_right_ne_nil _ (by simp)))
          (by rwa [← append_assoc, total_append, total_singleton])
        rwa [append_assoc] at covers
      · rw [if_neg beside] at fits ⊢
        have notEmpty : new ≠ [] := by
          intro isEmpty
          rw [isEmpty, isNew isEmpty] at beside
          exact heavy (by simpa using beside)
        refine .block shares notEmpty (.inl limited) ?_
        have later : Covers packing.Shares packing.Limited (shared ++ new)
            (packing.pack (packing.tail (shared ++ new) ++ [item]) rest) ([item] ++ rest) := by
          refine ih fits.2 (.inr rfl) (fun isEmpty => by cases isEmpty) ?_
          rw [total_append, total_singleton]
          exact fits.1
        exact later

theorem closed_subset : ∀ one ∈ closed block, one ⊆ block := by
  intro one isClosed
  unfold closed at isClosed
  split at isClosed
  · cases isClosed
  · rw [mem_singleton.mp isClosed]
    exact Subset.refl _

theorem pack_subset (block items : List α) :
    ∀ one ∈ packing.pack block items, one ⊆ block ++ items := by
  induction items generalizing block with
  | nil =>
    intro one isPacked
    exact Subset.trans (closed_subset one isPacked) (subset_append_left _ _)
  | cons item rest ih =>
    intro one isPacked
    unfold pack at isPacked
    split at isPacked
    · rcases mem_append.mp isPacked with isClosed | isLater
      · exact Subset.trans (closed_subset one isClosed) (subset_append_left _ _)
      · rcases mem_cons.mp isLater with rfl | isRest
        · intro other isItem
          rw [mem_singleton.mp isItem]
          exact mem_append_right _ mem_cons_self
        · intro other isOther
          exact mem_append_right _ (mem_cons_of_mem _ (ih [] one isRest isOther))
    · split at isPacked
      · intro other isOther
        have inWhole := ih _ one isPacked isOther
        rwa [append_assoc, singleton_append] at inWhole
      · rcases mem_cons.mp isPacked with rfl | isLater
        · exact subset_append_left _ _
        · intro other isOther
          have inWhole := ih _ one isLater isOther
          rw [append_assoc, singleton_append] at inWhole
          rcases mem_append.mp inWhole with inTail | inRest
          · exact mem_append_left _ ((packing.tail_suffix block).subset inTail)
          · exact mem_append_right _ inRest

/-! ## What a block shares and what it adds -/

def opened (shared new : List α) : List (List α × List α) :=
  if new.isEmpty then [] else [(shared, new)]

/-- The packed blocks, each as what it shares with the one before it and what it adds. -/
def parts : List α → List α → List α → List (List α × List α)
  | shared, new, [] => opened shared new
  | shared, new, item :: rest =>
    if packing.weight item > packing.size then
      opened shared new ++ ([], [item]) :: parts [] [] rest
    else if packing.total (shared ++ new) + packing.weight item ≤ packing.size then
      parts shared (new ++ [item]) rest
    else (shared, new) :: parts (packing.tail (shared ++ new)) [item] rest

/-- The parts are those of the blocks, each adds something, and together they add the items. -/
structure Parts (shared new items : List α) (blocks : List (List α))
    (parts : List (List α × List α)) : Prop where
  blocks : parts.map (fun part => part.1 ++ part.2) = blocks
  items : parts.flatMap Prod.snd = new ++ items
  isNew : ∀ part ∈ parts, part.2 ≠ []
  first : ∀ part ∈ parts.head?, part.1 = shared

theorem parts_opened {later : List (List α × List α)} (isNew : new = [] → shared = [])
    (isLater : Parts [] [] items blocks later) :
    Parts shared new items (closed (shared ++ new) ++ blocks) (opened shared new ++ later) := by
  unfold opened
  split
  · rename_i isEmpty
    have noneNew := isEmpty_iff.mp isEmpty
    rwa [noneNew, isNew noneNew]
  · rename_i notEmpty
    have someNew : new ≠ [] := fun isEmpty => notEmpty (isEmpty_iff.mpr isEmpty)
    rw [closed_of_ne_nil (append_ne_nil_of_right_ne_nil _ someNew)]
    refine ⟨congrArg ((shared ++ new) :: ·) isLater.blocks, congrArg (new ++ ·) isLater.items, ?_, ?_⟩
    · intro part isPart
      rcases mem_cons.mp isPart with rfl | isOther
      · exact someNew
      · exact isLater.isNew part isOther
    · intro part isFirst
      cases isFirst
      rfl

theorem parts_spec (isNew : new = [] → shared = []) :
    Parts shared new items (packing.pack (shared ++ new) items) (packing.parts shared new items) := by
  induction items generalizing shared new with
  | nil =>
    have noMore : Parts [] [] ([] : List α) [] [] :=
      ⟨rfl, rfl, fun part isPart => absurd isPart not_mem_nil, fun part isPart => by cases isPart⟩
    have here := parts_opened isNew noMore
    rwa [append_nil, append_nil] at here
  | cons item rest ih =>
    unfold pack parts
    by_cases heavy : packing.weight item > packing.size
    · rw [if_pos heavy, if_pos heavy]
      obtain ⟨blocks, items, someNew, _⟩ := @ih [] [] fun _ => rfl
      refine parts_opened isNew ⟨congrArg ([item] :: ·) blocks, congrArg (item :: ·) items, ?_, ?_⟩
      · intro part isPart
        rcases mem_cons.mp isPart with rfl | isOther
        · exact cons_ne_nil item []
        · exact someNew part isOther
      · intro part isFirst
        cases isFirst
        rfl
    · rw [if_neg heavy, if_neg heavy]
      by_cases beside : packing.total (shared ++ new) + packing.weight item ≤ packing.size
      · rw [if_pos beside, if_pos beside, append_assoc]
        obtain ⟨blocks, items, someNew, first⟩ := @ih shared (new ++ [item]) fun isEmpty =>
          absurd isEmpty (append_ne_nil_of_right_ne_nil _ (cons_ne_nil _ _))
        exact ⟨blocks, by rw [items, append_assoc]; rfl, someNew, first⟩
      · rw [if_neg beside, if_neg beside]
        have notEmpty : new ≠ [] := by
          intro isEmpty
          rw [isEmpty, isNew isEmpty] at beside
          exact heavy (by simpa using beside)
        obtain ⟨blocks, items, someNew, _⟩ := @ih (packing.tail (shared ++ new)) [item]
          fun isEmpty => absurd isEmpty (cons_ne_nil _ _)
        refine ⟨congrArg ((shared ++ new) :: ·) blocks, congrArg (new ++ ·) items, ?_, ?_⟩
        · intro part isPart
          rcases mem_cons.mp isPart with rfl | isOther
          · exact notEmpty
          · exact someNew part isOther
        · intro part isFirst
          cases isFirst
          rfl

/-! ## Tails that are taken item by item -/

section Admission

variable (admits : List α → α → Bool)

/-- The items from the first on, as long as each is admitted beside those already taken. -/
def admitted : List α → List α → List α
  | _, [] => []
  | taken, item :: rest => if admits taken item then item :: admitted (taken ++ [item]) rest else []

variable {admits}

theorem admitted_cons (taken : List α) (item : α) (rest : List α) :
    admitted admits taken (item :: rest) =
      if admits taken item then item :: admitted admits (taken ++ [item]) rest else [] := rfl

theorem admitted_isPrefix (taken items : List α) : admitted admits taken items <+: items := by
  induction items generalizing taken with
  | nil => exact prefix_refl _
  | cons item rest ih =>
    unfold admitted
    split
    · exact (prefix_cons_inj item).mpr (ih _)
    · exact nil_prefix

theorem admitted_eq_of_isPrefix {taken items longer : List α}
    (holds : admitted admits taken longer <+: items) (isPrefix : items <+: longer) :
    admitted admits taken items = admitted admits taken longer := by
  induction longer generalizing taken items with
  | nil => rw [prefix_nil.mp isPrefix]
  | cons item rest ih =>
    cases items with
    | nil => exact (prefix_nil.mp holds).symm
    | cons first others =>
      obtain ⟨rfl, isLater⟩ := cons_prefix_cons.mp isPrefix
      unfold admitted at holds ⊢
      split
      · rename_i isAdmitted
        rw [if_pos isAdmitted] at holds
        rw [ih ((cons_prefix_cons.mp holds).2) isLater]
      · rfl

theorem admitted_cons_isPrefix (less : ∀ item taken next, admits (item :: taken) next = true →
    admits taken next = true) (item : α) (taken items : List α) :
    admitted admits (item :: taken) items <+: admitted admits taken items := by
  induction items generalizing taken with
  | nil => exact prefix_refl _
  | cons next rest ih =>
    unfold admitted
    split
    · rename_i isAdmitted
      rw [if_pos (less item taken next isAdmitted)]
      exact (prefix_cons_inj next).mpr (ih (taken ++ [next]))
    · exact nil_prefix

def ofAdmits (weight : α → Nat) (size : Nat) (admits : List α → α → Bool)
    (less : ∀ item taken next, admits (item :: taken) next = true → admits taken next = true) :
    Packing α where
  weight := weight
  size := size
  tail block := (admitted admits [] block.reverse).reverse
  tail_suffix block := by
    rw [← reverse_prefix, reverse_reverse]
    exact admitted_isPrefix [] _
  tail_local {block longer} holds suffix := by
    rw [admitted_eq_of_isPrefix _ (List.reverse_prefix.mpr suffix)]
    rw [← reverse_prefix, reverse_reverse] at holds
    exact holds
  tail_append block item := by
    rw [← reverse_prefix, reverse_reverse, reverse_append, reverse_append,
      reverse_reverse, reverse_singleton, singleton_append, singleton_append,
      admitted_cons]
    split
    · exact (prefix_cons_inj item).mpr (admitted_cons_isPrefix less item [] _)
    · exact nil_prefix

end Admission

end Packing

end RedArchKM.Lib
