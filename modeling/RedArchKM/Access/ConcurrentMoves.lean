import RedArchKM.Access.FolderUpdate
import RedArchKM.Lib.Trace

/-!
# Folder moves side by side

Every move runs in a transaction of its own. It reads the folder, the new parent and the ancestors
of the new parent from what is committed, refuses a cycle, writes the folder's parent and the paths
of its subtree, and commits. A row that is written is locked until the end of the transaction; rows
that are only read are not.

So the ancestors may change between the check and the commit. A commit keeps the folders acyclic
exactly if the folder is not above the new parent at the moment of the commit
(`acyclic_published_iff`). A check makes sure of this for the folders that it reads
(`not_reaches_of_wouldCreateCycle`), and it stays so while no other move of the new parent or of a
folder above it commits. So no run closes a cycle in which that does not happen between what a move
reads and its commit (`acyclic_of_undisturbed`).
-/

namespace RedArchKM.Access

open Lib List Option

/-! ## Transactions -/

/-- How far a move has come. What it has loaded keeps the columns that it was read with. -/
inductive MovePhase where
  | waiting
  | loaded (folder : Folder)
  | located (folder : Folder) (newParent : Option Folder)
  | checked (folder : Folder) (newParent : Option Folder)
  | written (folder : Folder) (newParent : Option Folder)
  | rewritten (folder : Folder) (newParent : Option Folder) (paths : List (Nat × String))
  | committed
  | rolledBack
deriving DecidableEq

structure MoveTransaction where
  folderId : Nat
  newParentId : Option Nat
  phase : MovePhase := .waiting

structure MoveState where
  folders : List Folder
  transactions : List MoveTransaction

/-- A flush writes the row only if the parent is another one than was loaded. -/
def relinks (folder : Folder) (newParent : Option Folder) : Bool :=
  folder.parentId ≠ newParent.map Folder.id

section

variable (folders : List Folder) (folder : Folder) (newParent : Option Folder)

def relinked : List Folder :=
  if relinks folder newParent then
    setFolder folders folder.id fun row => { row with parentId := newParent.map Folder.id }
  else folders

def rebuiltPaths : List (Nat × String) :=
  let view := relinked folders folder newParent
  view.filterMap fun row =>
    (subtreePath view folder.id (childPath newParent folder.name) maxDepth row).map (row.id, ·)

/-- What a commit makes of the committed folders. -/
def published (paths : List (Nat × String)) : List Folder :=
  (relinked folders folder newParent).map fun row =>
    match paths.lookup row.id with
    | some path => { row with dotPath := path }
    | none => row

end

/-- The rows that a transaction has written and not yet released. -/
def MovePhase.locked : MovePhase → List Nat
  | .written folder newParent => if relinks folder newParent then [folder.id] else []
  | .rewritten _ _ paths => paths.map Prod.fst
  | _ => []

def free (state : MoveState) (index : Nat) (rows : List Nat) : Bool :=
  state.transactions.zipIdx.all fun (transaction, other) =>
    other = index || rows.all fun row => row ∉ transaction.phase.locked

inductive MoveAct where
  | load
  | locate
  | check
  | write
  | rewrite
  | commit
  | rollBack
deriving DecidableEq

structure MoveAction where
  transaction : Nat
  act : MoveAct

/-- What a move does next, or nothing if it cannot. A request that fails rolls back, and so does
one that the database refuses, whatever it has done before. -/
def advance (state : MoveState) (index : Nat) (transaction : MoveTransaction) :
    MoveAct → Option (List Folder × MovePhase)
  | .load =>
    match transaction.phase with
    | .waiting =>
      (folderById state.folders transaction.folderId).map fun folder =>
        (state.folders, .loaded folder)
    | _ => none
  | .locate =>
    match transaction.phase, transaction.newParentId with
    | .loaded folder, none => some (state.folders, .located folder none)
    | .loaded folder, some parentId =>
      (folderById state.folders parentId).map fun parent =>
        (state.folders, .located folder (some parent))
    | _, _ => none
  | .check =>
    match transaction.phase with
    | .located folder newParent =>
      if wouldCreateCycle folder newParent (newParent.elim [] (ancestors state.folders)) then none
      else some (state.folders, .checked folder newParent)
    | _ => none
  | .write =>
    match transaction.phase with
    | .checked folder newParent =>
      if relinks folder newParent &&
          (!free state index [folder.id] ||
            nameTaken state.folders folder.id folder.name (newParent.map Folder.id)) then none
      else some (state.folders, .written folder newParent)
    | _ => none
  | .rewrite =>
    match transaction.phase with
    | .written folder newParent =>
      let paths := rebuiltPaths state.folders folder newParent
      if free state index (paths.map Prod.fst) then
        some (state.folders, .rewritten folder newParent paths)
      else none
    | _ => none
  | .commit =>
    match transaction.phase with
    | .rewritten folder newParent paths =>
      some (published state.folders folder newParent paths, .committed)
    | _ => none
  | .rollBack =>
    match transaction.phase with
    | .committed => none
    | .rolledBack => none
    | _ => some (state.folders, .rolledBack)

/-- One statement of one of the transactions. -/
def moveStep (state : MoveState) (action : MoveAction) : Option MoveState :=
  (state.transactions[action.transaction]?).bind fun transaction =>
    (advance state action.transaction transaction action.act).map fun (folders, phase) =>
      { folders := folders
        transactions :=
          state.transactions.set action.transaction { transaction with phase := phase } }

/-! ## Commits -/

section Commits

variable {folders : List Folder} {folder : Folder} {newParent : Option Folder}
  {paths : List (Nat × String)}

theorem parentEdges_published :
    parentEdges (published folders folder newParent paths) =
      parentEdges (relinked folders folder newParent) := by
  rw [parentEdges, parentEdges, published, filterMap_map]
  apply filterMap_congr
  intro row _
  dsimp only [Function.comp_apply]
  split <;> rfl

theorem ids_published :
    (published folders folder newParent paths).map Folder.id = folders.map Folder.id := by
  have ids : (relinked folders folder newParent).map Folder.id = folders.map Folder.id := by
    unfold relinked
    split
    · refine ids_map (fun row => ?_) folders
      split <;> rfl
    · rfl
  rw [published, List.map_map, ← ids]
  apply List.map_congr_left
  intro row _
  dsimp only [Function.comp_apply]
  split <;> rfl

theorem edge_relinked_iff (isRelinked : relinks folder newParent = true) {id parentId : Nat} :
    Reach.Edge (parentEdges (relinked folders folder newParent)) id parentId ↔
      (id ≠ folder.id ∧ Reach.Edge (parentEdges folders) id parentId) ∨
        (id = folder.id ∧ id ∈ folders.map Folder.id ∧
          newParent.map Folder.id = some parentId) := by
  rw [relinked, if_pos isRelinked, setFolder, edge_parentEdges_map (fun row => by split <;> rfl),
    edge_parentEdges]
  constructor
  · rintro ⟨row, member, rfl, link⟩
    by_cases same : row.id = folder.id
    · rw [if_pos same] at link
      exact .inr ⟨same, mem_map_of_mem member, link⟩
    · rw [if_neg same] at link
      exact .inl ⟨same, row, member, rfl, link⟩
  · rintro (⟨differs, row, member, rfl, link⟩ | ⟨same, present, link⟩)
    · exact ⟨row, member, rfl, by rw [if_neg differs]; exact link⟩
    · obtain ⟨row, member, rfl⟩ := mem_map.mp present
      exact ⟨row, member, rfl, by rw [if_pos same]; exact link⟩

variable (paths) in
theorem mem_published {row : Folder} (member : row ∈ folders)
    (stays : Access.relinks folder newParent = true → row.id ≠ folder.id) :
    ∃ row' ∈ published folders folder newParent paths,
      row'.id = row.id ∧ row'.parentId = row.parentId := by
  have kept : row ∈ relinked folders folder newParent := by
    unfold relinked
    split
    · rename_i isRelinked
      exact mem_map.mpr ⟨row, member, if_neg (stays isRelinked)⟩
    · exact member
  refine ⟨_, mem_map_of_mem kept, ?_⟩
  split <;> exact ⟨rfl, rfl⟩

theorem parent_of_mem_published {row : Folder} {parentId : Nat}
    (member : row ∈ published folders folder newParent paths)
    (link : row.parentId = some parentId) :
    newParent.map Folder.id = some parentId ∨
      ∃ old ∈ folders, old.parentId = some parentId := by
  obtain ⟨middle, isMiddle, rfl⟩ := mem_map.mp member
  have linked : middle.parentId = some parentId := by
    rw [← link]
    split <;> rfl
  unfold relinked at isMiddle
  split at isMiddle
  · obtain ⟨old, isOld, rfl⟩ := mem_map.mp isMiddle
    split at linked
    · exact .inl linked
    · exact .inr ⟨old, isOld, linked⟩
  · exact .inr ⟨middle, isMiddle, linked⟩

def Upheld (folders : List Folder) (folder : Folder) (newParent : Option Folder) : Prop :=
  ∀ parent, newParent = some parent → relinks folder newParent = true →
    ¬Reach.Reaches (parentEdges folders) parent.id folder.id

/-- **A commit keeps the folders acyclic exactly if the move is upheld by what is committed.** -/
theorem acyclic_published_iff (acyclic : Reach.Acyclic (parentEdges folders))
    (present : folder.id ∈ folders.map Folder.id) :
    Reach.Acyclic (parentEdges (published folders folder newParent paths)) ↔
      Upheld folders folder newParent := by
  rw [parentEdges_published]
  by_cases isRelinked : relinks folder newParent = true
  · cases newParent with
    | some parent =>
      have links : ∀ id parentId,
          Reach.Edge (parentEdges (relinked folders folder (some parent))) id parentId ↔
            (id ≠ folder.id ∧ Reach.Edge (parentEdges folders) id parentId) ∨
              (id = folder.id ∧ parentId = parent.id) := by
        intro id parentId
        rw [edge_relinked_iff isRelinked]
        refine or_congr_right (and_congr_right fun same => ?_)
        rw [same, map_some, some.injEq, eq_comm, and_iff_right present]
      rw [acyclic.relink_iff links]
      constructor
      · intro apart _ isParent _
        cases isParent
        exact apart
      · intro upheld
        exact upheld parent rfl isRelinked
    | none =>
      refine iff_of_true (acyclic.relink (a := folder.id) fun id parentId edge => .inl ?_) nofun
      rcases (edge_relinked_iff isRelinked).mp edge with ⟨_, old⟩ | ⟨_, _, link⟩
      · exact old
      · cases link
  · rw [relinked, if_neg isRelinked]
    exact iff_of_true acyclic fun _ _ isTrue => absurd isTrue isRelinked

/-- **An upheld move keeps a forest.** -/
theorem WellFormed.published (wellFormed : WellFormed folders)
    (parents : ∀ parent, newParent = some parent → parent.id ∈ folders.map Folder.id)
    (upheld : Upheld folders folder newParent) (present : folder.id ∈ folders.map Folder.id) :
    WellFormed (published folders folder newParent paths) where
  ids_nodup := ids_published.symm ▸ wellFormed.ids_nodup
  parents_present row member parentId link := by
    rw [ids_published]
    rcases parent_of_mem_published member link with isNew | ⟨old, isOld, linked⟩
    · obtain ⟨parent, isParent, rfl⟩ := map_eq_some_iff.mp isNew
      exact parents parent isParent
    · exact wellFormed.parents_present old isOld parentId linked
  acyclic := (acyclic_published_iff wellFormed.acyclic present).mpr upheld

end Commits

/-! ## Steps -/

namespace MovePhase

def loads : MovePhase → List Folder
  | .loaded folder => [folder]
  | .located folder newParent => folder :: newParent.toList
  | .checked folder newParent => folder :: newParent.toList
  | .written folder newParent => folder :: newParent.toList
  | .rewritten folder newParent _ => folder :: newParent.toList
  | _ => []

def target : MovePhase → Option Folder
  | .located _ newParent => newParent
  | .checked _ newParent => newParent
  | .written _ newParent => newParent
  | .rewritten _ newParent _ => newParent
  | _ => none

/-- What the move has read of its new parent still holds. -/
def Kept (folders : List Folder) : MovePhase → Prop
  | .located _ newParent => ∀ parent, newParent = some parent →
    ∃ row ∈ folders, row.id = parent.id ∧ row.parentId = parent.parentId
  | .checked folder newParent => ∀ parent, newParent = some parent →
    ¬Reach.Reaches (parentEdges folders) parent.id folder.id
  | .written folder newParent => ∀ parent, newParent = some parent →
    ¬Reach.Reaches (parentEdges folders) parent.id folder.id
  | .rewritten folder newParent _ => ∀ parent, newParent = some parent →
    ¬Reach.Reaches (parentEdges folders) parent.id folder.id
  | _ => True

end MovePhase

/-- The folders that moves have loaded are there. -/
def Loaded (state : MoveState) : Prop :=
  ∀ transaction ∈ state.transactions, ∀ folder ∈ transaction.phase.loads,
    folder.id ∈ state.folders.map Folder.id

def Commits (state : MoveState) (action : MoveAction) (folder : Folder)
    (newParent : Option Folder) : Prop :=
  action.act = .commit ∧ ∃ transaction paths,
    state.transactions[action.transaction]? = some transaction ∧
      transaction.phase = .rewritten folder newParent paths

/-- The action commits a move of the new parent that the move at the index has read, or of a folder
above it. -/
def Disturbs (state : MoveState) (action : MoveAction) (index : Nat) : Prop :=
  action.transaction ≠ index ∧ ∃ folder newParent transaction parent,
    Commits state action folder newParent ∧ relinks folder newParent = true ∧
      state.transactions[index]? = some transaction ∧ transaction.phase.target = some parent ∧
        Reach.Reaches (parentEdges state.folders) parent.id folder.id

/-- **The check is right about the folders that it reads.** -/
theorem not_reaches_of_wouldCreateCycle {folders : List Folder} (wellFormed : WellFormed folders)
    {folder parent : Folder} (present : folder.id ∈ folders.map Folder.id)
    (read : ∃ row ∈ folders, row.id = parent.id ∧ row.parentId = parent.parentId)
    (undetected : wouldCreateCycle folder (some parent) (ancestors folders parent) = false) :
    ¬Reach.Reaches (parentEdges folders) parent.id folder.id := by
  intro below
  obtain ⟨row, member, sameId, sameParent⟩ := read
  obtain ⟨current, isCurrent, same⟩ := mem_map.mp present
  have above : ancestors folders parent = ancestors folders row := by
    rw [ancestors, ancestors, sameParent]
  rw [← sameId, ← same] at below
  simp only [wouldCreateCycle, above, Bool.or_eq_false_iff, decide_eq_false_iff_not,
    List.any_eq_false, decide_eq_true_eq] at undetected
  have different : row.id ≠ current.id := by
    rw [sameId, same]
    exact undetected.1
  obtain ⟨ancestor, isAbove, hit⟩ := wellFormed.exists_ancestor member isCurrent different below
  exact undetected.2 ancestor isAbove (hit.trans same)

variable {state next : MoveState} {action : MoveAction} {index : Nat}
  {transaction : MoveTransaction}

theorem advance_cases {folders : List Folder} {phase : MovePhase} {act : MoveAct}
    (advances : advance state index transaction act = some (folders, phase)) :
    (folders = state.folders ∧ act ≠ .commit ∧
        (∀ folder ∈ phase.loads, folder ∈ transaction.phase.loads ∨ folder ∈ state.folders) ∧
        (WellFormed state.folders →
          (∀ folder ∈ transaction.phase.loads, folder.id ∈ state.folders.map Folder.id) →
            transaction.phase.Kept state.folders → phase.Kept state.folders)) ∨
      act = .commit ∧ phase = .committed ∧ ∃ folder newParent paths,
        transaction.phase = .rewritten folder newParent paths ∧
          folders = published state.folders folder newParent paths := by
  cases act with
  | load =>
    simp only [advance] at advances
    split at advances
    · obtain ⟨folder, found, same⟩ := map_eq_some_iff.mp advances
      cases same
      refine .inl ⟨rfl, nofun, fun other isOther => .inr ?_, fun _ _ _ => trivial⟩
      rw [mem_singleton.mp isOther]
      exact (mem_of_folderById found).1
    · cases advances
  | locate =>
    simp only [advance] at advances
    split at advances
    · rename_i folder here _
      cases advances
      exact .inl ⟨rfl, nofun, fun other isOther => .inl (by rw [here]; exact isOther),
        fun _ _ _ => nofun⟩
    · rename_i folder _ here _
      obtain ⟨parent, found, same⟩ := map_eq_some_iff.mp advances
      cases same
      have member := (mem_of_folderById found).1
      refine .inl ⟨rfl, nofun, fun other isOther => ?_, fun _ _ _ _ isParent => ?_⟩
      · rcases mem_cons.mp isOther with rfl | isParent
        · exact .inl (by rw [here]; exact mem_singleton_self _)
        · exact .inr (by rw [mem_singleton.mp isParent]; exact member)
      · cases isParent
        exact ⟨parent, member, rfl, rfl⟩
    · cases advances
  | check =>
    simp only [advance] at advances
    split at advances
    · rename_i folder newParent here
      split at advances
      · cases advances
      · rename_i undetected
        cases advances
        refine .inl ⟨rfl, nofun, fun other isOther => .inl (by rw [here]; exact isOther),
          fun wellFormed present kept parent isParent => ?_⟩
        rw [here] at present kept
        subst isParent
        exact not_reaches_of_wouldCreateCycle wellFormed (present folder mem_cons_self)
          (kept parent rfl) (by simpa using undetected)
    · cases advances
  | write =>
    simp only [advance] at advances
    split at advances
    · rename_i here
      split at advances
      · cases advances
      · cases advances
        exact .inl ⟨rfl, nofun, fun other isOther => .inl (by rw [here]; exact isOther),
          fun _ _ kept => by rw [here] at kept; exact kept⟩
    · cases advances
  | rewrite =>
    simp only [advance] at advances
    split at advances
    · rename_i here
      split at advances
      · cases advances
        exact .inl ⟨rfl, nofun, fun other isOther => .inl (by rw [here]; exact isOther),
          fun _ _ kept => by rw [here] at kept; exact kept⟩
      · cases advances
    · cases advances
  | commit =>
    simp only [advance] at advances
    split at advances
    · rename_i folder newParent paths here
      cases advances
      exact .inr ⟨rfl, rfl, folder, newParent, paths, here, rfl⟩
    · cases advances
  | rollBack =>
    simp only [advance] at advances
    split at advances
    · cases advances
    · cases advances
    · cases advances
      exact .inl ⟨rfl, nofun, nofun, fun _ _ _ => trivial⟩

theorem moveStep_cases (stepped : moveStep state action = some next) :
    ∃ transaction folders phase, state.transactions[action.transaction]? = some transaction ∧
      advance state action.transaction transaction action.act = some (folders, phase) ∧
      next = { folders := folders
               transactions :=
                 state.transactions.set action.transaction { transaction with phase := phase } } := by
  obtain ⟨transaction, found, rest⟩ := bind_eq_some_iff.mp stepped
  obtain ⟨⟨folders, phase⟩, advances, same⟩ := map_eq_some_iff.mp rest
  exact ⟨transaction, folders, phase, found, advances, same.symm⟩

/-- **What moves have loaded stays there.** -/
theorem Loaded.step (loaded : Loaded state) (stepped : moveStep state action = some next) :
    Loaded next := by
  obtain ⟨transaction, folders, phase, found, advances, rfl⟩ := moveStep_cases stepped
  have isMember := mem_of_getElem? found
  have ids : folders.map Folder.id = state.folders.map Folder.id := by
    rcases advance_cases advances with ⟨same, _⟩ | ⟨_, _, folder, newParent, paths, _, same⟩
    · rw [same]
    · rw [same, ids_published]
  intro other member folder isFolder
  rw [ids]
  rcases mem_or_eq_of_mem_set member with old | rfl
  · exact loaded other old folder isFolder
  · rcases advance_cases advances with ⟨_, _, kept, _⟩ | ⟨_, committed, _⟩
    · rcases kept folder isFolder with same | isThere
      · exact loaded transaction isMember folder same
      · exact mem_map_of_mem isThere
    · rw [committed] at isFolder
      cases isFolder

/-- **What a move has read holds on past the commit of another** that does not move a folder on its
chain. -/
theorem MovePhase.Kept.published {folders : List Folder} {folder : Folder}
    {newParent : Option Folder} {paths : List (Nat × String)} {phase : MovePhase}
    (kept : phase.Kept folders)
    (apart : ∀ parent, phase.target = some parent → relinks folder newParent = true →
      ¬Reach.Reaches (parentEdges folders) parent.id folder.id) :
    phase.Kept (published folders folder newParent paths) := by
  have unreached {parent other : Folder} (isTarget : phase.target = some parent)
      (unreached : ¬Reach.Reaches (parentEdges folders) parent.id other.id) :
      ¬Reach.Reaches (parentEdges (Access.published folders folder newParent paths)) parent.id
        other.id := by
    intro reaches
    rw [parentEdges_published] at reaches
    by_cases isRelinked : relinks folder newParent = true
    · refine unreached (Reach.Reaches.of_apart reaches (apart parent isTarget isRelinked) ?_)
      intro id parentId differs edge
      rcases (edge_relinked_iff isRelinked).mp edge with ⟨_, old⟩ | ⟨same, _⟩
      · exact old
      · exact absurd same differs
    · rw [relinked, if_neg isRelinked] at reaches
      exact unreached reaches
  cases phase with
  | located other target =>
    intro parent isParent
    obtain ⟨row, member, sameId, sameParent⟩ := kept parent isParent
    obtain ⟨row', member', sameId', sameParent'⟩ := mem_published paths member
      fun isRelinked same => apart parent isParent isRelinked
        (by rw [← sameId, same])
    exact ⟨row', member', sameId'.trans sameId, sameParent'.trans sameParent⟩
  | checked other target => exact fun parent isParent => unreached isParent (kept parent isParent)
  | written other target => exact fun parent isParent => unreached isParent (kept parent isParent)
  | rewritten other target _ =>
    exact fun parent isParent => unreached isParent (kept parent isParent)
  | _ => trivial

/-- What the checks that nobody disturbed make sure of. -/
structure Sound (state : MoveState) (disturbed : Nat → Prop) : Prop where
  wellFormed : WellFormed state.folders
  loaded : Loaded state
  kept : ∀ index transaction, state.transactions[index]? = some transaction →
    ¬disturbed index → transaction.phase.Kept state.folders

/-- **A step keeps this, and with it the forest**, if it commits no move that was disturbed. -/
theorem Sound.step {disturbed : Nat → Prop} (sound : Sound state disturbed)
    (undisturbed : action.act = .commit → ¬disturbed action.transaction)
    (stepped : moveStep state action = some next) :
    Sound next fun index => disturbed index ∨ Disturbs state action index := by
  have loaded := sound.loaded.step stepped
  obtain ⟨transaction, folders, phase, found, advances, rfl⟩ := moveStep_cases stepped
  have present := sound.loaded transaction (mem_of_getElem? found)
  rcases advance_cases advances with
    ⟨rfl, -, -, keeps⟩ | ⟨isCommit, rfl, folder, newParent, paths, here, rfl⟩
  · refine ⟨sound.wellFormed, loaded, fun index other isOther calm => ?_⟩
    have before := fun current isCurrent =>
      sound.kept index current isCurrent fun disturbed => calm (.inl disturbed)
    rw [getElem?_set] at isOther
    split at isOther
    · rename_i same
      subst same
      split at isOther
      · cases isOther
        exact keeps sound.wellFormed present (before transaction found)
      · cases isOther
    · exact before other isOther
  · rw [here] at present
    have upheld : Upheld state.folders folder newParent := by
      intro parent isParent _
      have kept := sound.kept _ transaction found (undisturbed isCommit)
      rw [here] at kept
      exact kept parent isParent
    refine ⟨sound.wellFormed.published (fun parent isParent => ?_) upheld
      (present folder mem_cons_self), loaded, fun index other isOther calm => ?_⟩
    · exact present parent (mem_cons_of_mem _ (by rw [isParent]; exact mem_singleton_self _))
    · rw [getElem?_set] at isOther
      split at isOther
      · split at isOther
        · cases isOther
          trivial
        · cases isOther
      · rename_i differs
        refine (sound.kept index other isOther fun disturbed => calm (.inl disturbed)).published ?_
        intro parent isTarget isRelinked reaches
        exact calm (.inr ⟨differs, folder, newParent, other, parent,
          ⟨isCommit, transaction, paths, found, here⟩, isRelinked, isOther, isTarget, reaches⟩)

/-! ## Runs -/

variable {initial : MoveState}

/-- Since the move at the index has read its new parent, another move of that folder or of one above
it has committed. -/
def Disturbed (initial : MoveState) (actions : List MoveAction) (index : Nat) : Prop :=
  ∃ earlier action state, earlier ++ [action] <+: actions ∧
    Trace.run moveStep initial earlier = some state ∧ Disturbs state action index

theorem Sound.run {actions : List MoveAction} (sound : Sound initial fun _ => False)
    (undisturbed : ∀ earlier action, earlier ++ [action] <+: actions → action.act = .commit →
      ¬Disturbed initial earlier action.transaction)
    (ran : Trace.run moveStep initial actions = some state) :
    Sound state (Disturbed initial actions) := by
  induction actions using List.reverseRecOn generalizing state with
  | nil =>
    cases ran
    exact ⟨sound.wellFormed, sound.loaded,
      fun index other isOther _ => sound.kept index other isOther id⟩
  | append_singleton actions action ih =>
    obtain ⟨middle, ranMiddle, stepped⟩ := Trace.exists_of_run_concat ran
    have before := ih (fun earlier act isEarlier =>
      undisturbed earlier act (isEarlier.trans (prefix_append _ _))) ranMiddle
    have after := before.step (undisturbed actions action prefix_rfl) stepped
    refine ⟨after.wellFormed, after.loaded, fun index other isOther calm =>
      after.kept index other isOther ?_⟩
    rintro (⟨earlier, act, past, isEarlier, disturbs⟩ | disturbs)
    · exact calm ⟨earlier, act, past, isEarlier.trans (prefix_append _ _), disturbs⟩
    · exact calm ⟨actions, action, middle, prefix_rfl, ranMiddle, disturbs⟩

/-- **Moves keep the folders acyclic** in every run where, between what a move reads and its commit,
no other move of its new parent or of a folder above it commits. -/
theorem acyclic_of_undisturbed {actions : List MoveAction} (wellFormed : WellFormed initial.folders)
    (waiting : ∀ transaction ∈ initial.transactions, transaction.phase = .waiting)
    (undisturbed : ∀ earlier action, earlier ++ [action] <+: actions → action.act = .commit →
      ¬Disturbed initial earlier action.transaction) :
    ∀ earlier state, earlier <+: actions → Trace.run moveStep initial earlier = some state →
      Reach.Acyclic (parentEdges state.folders) := by
  have fresh : Sound initial fun _ => False := by
    refine ⟨wellFormed, fun transaction member folder isLoaded => ?_,
      fun index transaction found _ => ?_⟩
    · rw [waiting transaction member] at isLoaded
      cases isLoaded
    · rw [waiting transaction (mem_of_getElem? found)]
      trivial
  intro earlier state isEarlier ran
  exact (fresh.run (fun before action isBefore =>
    undisturbed before action (isBefore.trans isEarlier)) ran).wellFormed.acyclic

/-! ## Two folders that change places -/

/-- Two folders without a parent, and a move of each under the other. -/
def twoFolders : MoveState where
  folders := [{ id := 1, name := "plans", dotPath := "plans" },
    { id := 2, name := "notes", dotPath := "notes" }]
  transactions := [{ folderId := 1, newParentId := some 2 }, { folderId := 2, newParentId := some 1 }]

def bothMoves : List MoveAction :=
  [⟨0, .load⟩, ⟨0, .locate⟩, ⟨0, .check⟩, ⟨1, .load⟩, ⟨1, .locate⟩, ⟨1, .check⟩, ⟨0, .write⟩,
    ⟨1, .write⟩, ⟨0, .rewrite⟩, ⟨1, .rewrite⟩, ⟨0, .commit⟩, ⟨1, .commit⟩]

/-- The folders end below each other. -/
theorem not_acyclic_bothMoves :
    ¬∀ earlier state, earlier <+: bothMoves → Trace.run moveStep twoFolders earlier = some state →
      Reach.Acyclic (parentEdges state.folders) := by
  intro allAcyclic
  have ends : ∃ state, Trace.run moveStep twoFolders bothMoves = some state ∧
      Reach.Edge (parentEdges state.folders) 1 2 ∧ Reach.Edge (parentEdges state.folders) 2 1 := by
    refine ⟨_, rfl, ?_, ?_⟩
    · unfold Reach.Edge
      decide +kernel
    · unfold Reach.Edge
      decide +kernel
  obtain ⟨state, ran, up, down⟩ := ends
  exact allAcyclic bothMoves state prefix_rfl ran 1 (.head up (.single down))

/-- Three folders without a parent, and moves of two of them under the third. -/
def threeFolders : MoveState where
  folders := [{ id := 1, name := "plans", dotPath := "plans" },
    { id := 2, name := "notes", dotPath := "notes" },
    { id := 3, name := "past", dotPath := "past" }]
  transactions := [{ folderId := 1, newParentId := some 3 }, { folderId := 2, newParentId := some 3 }]

theorem commits_bothMoves {earlier : List MoveAction} {action : MoveAction}
    (isPrefix : earlier ++ [action] <+: bothMoves) (isCommit : action.act = .commit) :
    (earlier.length = 10 ∨ earlier.length = 11) ∧ earlier = bothMoves.take earlier.length ∧
      bothMoves[earlier.length]? = some action := by
  obtain ⟨rest, whole⟩ := isPrefix
  have here : bothMoves[earlier.length]? = some action := by simp [← whole]
  refine ⟨?_, by simp [← whole], here⟩
  have atCommit : ∀ n < 12, (bothMoves[n]?.any fun action => action.act = .commit) = true →
      n = 10 ∨ n = 11 := by decide
  obtain ⟨inside, _⟩ := List.getElem?_eq_some_iff.mp here
  exact atCommit earlier.length inside (by simp [here, isCommit])

/-- Side by side, but neither moves a folder on the other's chain. -/
theorem acyclic_threeFolders : (Trace.run moveStep threeFolders bothMoves).isSome = true ∧
    ∀ earlier state, earlier <+: bothMoves →
      Trace.run moveStep threeFolders earlier = some state →
        Reach.Acyclic (parentEdges state.folders) := by
  refine ⟨by decide +kernel, acyclic_of_undisturbed ⟨by decide, by decide, ?_⟩ (by decide) ?_⟩
  · exact Reach.acyclic_of_height (fun _ => 0) fun _ _ edge =>
      absurd edge (by simp [Reach.Edge, parentEdges, threeFolders])
  · rintro earlier action isEarlier isCommit
      ⟨before, other, state, isBefore, ran, -, folder, newParent, transaction, parent,
        ⟨isOther, moved, paths, found, isMove⟩, -, isHere, isTarget, reaches⟩
    obtain ⟨place, areEarlier, here⟩ := commits_bothMoves isEarlier isCommit
    obtain ⟨place', areBefore, here'⟩ := commits_bothMoves
      (isBefore.trans ((prefix_append _ _).trans isEarlier)) isOther
    have shorter : before.length < earlier.length := by
      simpa [Nat.succ_le_iff] using isBefore.length_le
    obtain ⟨early, late⟩ : before.length = 10 ∧ earlier.length = 11 := by omega
    rw [early] at areBefore here'
    rw [late] at here
    subst areBefore
    cases here
    cases here'
    have folders : (Trace.run moveStep threeFolders (bothMoves.take 10)).map MoveState.folders =
        some threeFolders.folders := by decide +kernel
    have first : ((Trace.run moveStep threeFolders (bothMoves.take 10)).bind
        (·.transactions[0]?)).map (fun moved => moved.phase.loads.map Folder.id) = some [1, 3] := by
      decide +kernel
    have second : ((Trace.run moveStep threeFolders (bothMoves.take 10)).bind
        (·.transactions[1]?)).bind (fun moved => moved.phase.target.map Folder.id) = some 3 := by
      decide +kernel
    simp only [ran, map_some, bind_some, found, isMove, isHere, isTarget, some.injEq,
      MovePhase.loads, List.map_cons, cons.injEq] at folders first second
    have noLinks := Relation.ReflTransGen.cases_head reaches
    rw [folders, second, first.1] at noLinks
    simp [Reach.Edge, parentEdges, threeFolders] at noLinks

end RedArchKM.Access
