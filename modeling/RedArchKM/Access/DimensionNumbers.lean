import RedArchKM.Access.PermissionConfig

/-!
# The numbers of deleted dimensions

Masks outlive the dimensions they name, so a number that was handed out once should never name
another dimension. A creation takes the number after the highest one in use, which is fresh
among the rows that exist. Over the whole life of the table it is fresh exactly as long as the
row with the highest number ever given is still there (`neverRehanded_iff`): once that row is deleted,
the next creation hands its successor's number, or its own, to somebody else.
-/

namespace RedArchKM.Access

open List

/-! ## Dimension kinds -/

inductive DimensionKind where
  | region | department | role | group
deriving DecidableEq

/-- A dimension's MAX value is the mask wildcard. -/
def DimensionKind.wildcard : DimensionKind → Nat
  | .region => maxRegion
  | .department => maxDept
  | .role => maxRole
  | .group => maxGroup

/-- The component of a mask that belongs to the kind. -/
def MaskFields.number (fields : MaskFields) : DimensionKind → Nat
  | .region => fields.region
  | .department => fields.dept
  | .role => fields.role
  | .group => fields.group

def masksOfNumbers (orgNumber : Nat) (assigned : DimensionKind → List Nat) :
    Except String (List Nat) :=
  calculateMasksFromAssignments orgNumber (assigned .region) (assigned .department)
    (assigned .role) (assigned .group)

/-- **No mask stored under the first number matches a member whose only assignment in the kind
has the second.** -/
def NeverMatches (kind : DimensionKind) (stored assigned : Nat) : Prop :=
  ∀ fields : MaskFields, fields.InRange → fields.number kind = stored →
    ∀ (orgNumber : Nat) (numbers : DimensionKind → List Nat), orgNumber ≤ maxOrgId →
      (∀ other, ∀ number ∈ numbers other, number ≤ other.wildcard) →
      numbers kind = [assigned] →
      ∀ masks, masksOfNumbers orgNumber numbers = .ok masks → fields.word ∉ masks

section Masks

variable {orgNumber : Nat} {numbers : DimensionKind → List Nat}

theorem length_eraseDups_le : ∀ values : List Nat, values.eraseDups.length ≤ values.length
  | [] => Nat.le_refl 0
  | value :: rest => by
    have shorter : (rest.filter fun other => !other == value).length ≤ rest.length :=
      length_filter_le ..
    have fewer := length_eraseDups_le (rest.filter fun other => !other == value)
    rw [eraseDups_cons, length_cons, length_cons]
    omega
termination_by values => values.length
decreasing_by
  rw [length_cons]
  omega

theorem length_withWildcard_le (values : List Nat) (wildcard : Nat) :
    (withWildcard values wildcard).length ≤ values.length + 1 := by
  have fewer := length_eraseDups_le (values ++ [wildcard])
  rwa [length_append, length_singleton] at fewer

theorem length_memberTuples (regions roles groups depts : List Nat) :
    (memberTuples orgNumber regions roles groups depts).length =
      (withWildcard regions maxRegion).length * ((withWildcard roles maxRole).length *
        ((withWildcard groups maxGroup).length * (withWildcard depts maxDept).length)) := by
  simp [memberTuples, length_flatMap, map_const']

def tuplesOfNumbers (orgNumber : Nat) (numbers : DimensionKind → List Nat) : List MaskFields :=
  memberTuples orgNumber (orZero (numbers .region)) (orZero (numbers .role))
    (orZero (numbers .group)) (orZero (numbers .department))

theorem orZero_le_of {values : List Nat} {bound : Nat} (le : ∀ value ∈ values, value ≤ bound) :
    ∀ value ∈ orZero values, value ≤ bound := by
  cases values with
  | nil =>
    intro value member
    obtain rfl := mem_singleton.mp member
    exact Nat.zero_le _
  | cons first rest => exact le

section

variable (orgRange : orgNumber ≤ maxOrgId)
    (range : ∀ other, ∀ number ∈ numbers other, number ≤ other.wildcard)

include orgRange range

theorem tuplesOfNumbers_inRange : ∀ fields ∈ tuplesOfNumbers orgNumber numbers, fields.InRange :=
  memberTuples_inRange orgRange (orZero_le_of (range .region)) (orZero_le_of (range .role))
    (orZero_le_of (range .group)) (orZero_le_of (range .department))

theorem masksOfNumbers_eq : masksOfNumbers orgNumber numbers =
      if maxAccessKeys < (tuplesOfNumbers orgNumber numbers).length then
        .error (tooManyAccessMasks (tuplesOfNumbers orgNumber numbers).length)
      else .ok ((tuplesOfNumbers orgNumber numbers).map MaskFields.word) := by
  have expanded : memberMasks orgNumber (orZero (numbers .region)) (orZero (numbers .role))
      (orZero (numbers .group)) (orZero (numbers .department)) =
        .ok ((tuplesOfNumbers orgNumber numbers).map MaskFields.word) :=
    mapM_encode_of_inRange _ (tuplesOfNumbers_inRange orgRange range)
  rw [masksOfNumbers, calculateMasksFromAssignments, expanded]
  simp only [bind, Except.bind, length_map, gt_iff_lt]
  split <;> rfl

end

/-- A member asserts a number of the kind only if it is assigned, or the wildcard. -/
theorem number_of_mem_tuples {fields : MaskFields} {kind : DimensionKind} {assigned : Nat}
    (only : numbers kind = [assigned]) (member : fields ∈ tuplesOfNumbers orgNumber numbers) :
    fields.number kind = assigned ∨ fields.number kind = kind.wildcard := by
  obtain ⟨-, region, role, group, dept⟩ := mem_memberTuples.mp member
  cases kind with
  | region => simpa [only, orZero, MaskFields.number, DimensionKind.wildcard] using region
  | department => simpa [only, orZero, MaskFields.number, DimensionKind.wildcard] using dept
  | role => simpa [only, orZero, MaskFields.number, DimensionKind.wildcard] using role
  | group => simpa [only, orZero, MaskFields.number, DimensionKind.wildcard] using group

section

variable (kind : DimensionKind) (number : Nat)

def onlyFields : MaskFields where
  org := 0
  region := if kind = .region then number else maxRegion
  role := if kind = .role then number else maxRole
  group := if kind = .group then number else maxGroup
  dept := if kind = .department then number else maxDept

/-- A member with one assignment. -/
def onlyNumbers (other : DimensionKind) : List Nat :=
  if other = kind then [number] else []

theorem length_tuples_onlyNumbers :
    (tuplesOfNumbers orgNumber (onlyNumbers kind number)).length ≤ 16 := by
  have single : ∀ other, (orZero (onlyNumbers kind number other)).length = 1 := by
    intro other
    unfold onlyNumbers
    split <;> rfl
  have two : ∀ other wildcard,
      (withWildcard (orZero (onlyNumbers kind number other)) wildcard).length ≤ 2 := by
    intro other wildcard
    have fewer := length_withWildcard_le (orZero (onlyNumbers kind number other)) wildcard
    rwa [single other] at fewer
  rw [tuplesOfNumbers, length_memberTuples]
  exact Nat.mul_le_mul (two ..) (Nat.mul_le_mul (two ..) (Nat.mul_le_mul (two ..) (two ..)))

theorem onlyFields_mem : onlyFields kind number ∈ tuplesOfNumbers 0 (onlyNumbers kind number) := by
  refine mem_memberTuples.mpr ⟨rfl, ?_, ?_, ?_, ?_⟩ <;>
    cases kind <;> simp [onlyFields, onlyNumbers, orZero]

end

/-- **Masks of one number never match members of another exactly when the numbers differ.** -/
theorem neverMatches_iff {kind : DimensionKind} {stored assigned : Nat}
    (storedRange : stored < kind.wildcard) (assignedRange : assigned < kind.wildcard) :
    NeverMatches kind stored assigned ↔ stored ≠ assigned := by
  constructor
  · rintro never rfl
    have range : ∀ other, ∀ number ∈ onlyNumbers kind stored other, number ≤ other.wildcard := by
      intro other number member
      unfold onlyNumbers at member
      split at member
      · rename_i same
        obtain rfl := mem_singleton.mp member
        exact same ▸ Nat.le_of_lt storedRange
      · cases member
    have tuples := tuplesOfNumbers_inRange (Nat.zero_le maxOrgId) range
    have few : ¬ maxAccessKeys < (tuplesOfNumbers 0 (onlyNumbers kind stored)).length := by
      have sixteen : (tuplesOfNumbers 0 (onlyNumbers kind stored)).length ≤ 16 :=
        length_tuples_onlyNumbers kind stored
      have cap : 16 ≤ maxAccessKeys := by decide
      omega
    have masks := masksOfNumbers_eq (Nat.zero_le maxOrgId) range
    rw [if_neg few] at masks
    have asksFor : (onlyFields kind stored).number kind = stored := by
      cases kind <;> rfl
    have alone : onlyNumbers kind stored kind = [stored] := if_pos rfl
    exact never (onlyFields kind stored) (tuples _ (onlyFields_mem kind stored)) asksFor 0
      (onlyNumbers kind stored) (Nat.zero_le _) range alone _ masks
      (mem_map_of_mem (onlyFields_mem kind stored))
  · intro other fields inRange asksFor orgNumber numbers orgRange range only masks isMasks member
    rw [masksOfNumbers_eq orgRange range] at isMasks
    split at isMasks
    · cases isMasks
    · cases isMasks
      obtain ⟨tuple, isTuple, sameWord⟩ := mem_map.mp member
      have same := (MaskFields.word_inj (tuplesOfNumbers_inRange orgRange range _ isTuple)
        inRange).mp sameWord
      subst same
      rcases number_of_mem_tuples only isTuple with assignedNumber | wildcard
      · exact other (asksFor.symm.trans assignedNumber)
      · exact absurd (asksFor.symm.trans wildcard) (Nat.ne_of_lt storedRange)

end Masks

/-! ## The table over its life -/

namespace DimensionTable

variable {wildcard : Nat}

theorem map_modify {α β : Type} {read : α → β} {change : α → α} (change' : β → β)
    (commutes : ∀ row, read (change row) = change' (read row)) (rows : List α) (place : Nat) :
    (rows.modify place change).map read = (rows.map read).modify place change' := by
  refine ext_getElem? fun index => ?_
  simp only [getElem?_map, getElem?_modify]
  by_cases here : place = index
  · cases rows[index]? <;> simp [here, commutes]
  · cases rows[index]? <;> simp [here]

theorem nodup_modify_of_notMem {names : List String} (nodup : names.Nodup) {name : String}
    (fresh : name ∉ names) (place : Nat) : (names.modify place fun _ => name).Nodup := by
  rw [← set_eq_modify]
  exact nodup.set fresh

theorem numbers_renamed (rows : List (Dimension wildcard)) (place : Nat) (name : String) :
    (rows.modify place fun row => { row with name := name }).map Dimension.permissionNumber =
      rows.map Dimension.permissionNumber :=
  (@map_modify _ _ Dimension.permissionNumber (fun row => { row with name := name }) id
    (fun _ => rfl) rows place).trans (modify_id ..)

section

variable (table : DimensionTable wildcard) (place : Nat)

/-- Give the row at a place another name; names stay unique. -/
def rename (name : String) : Except CreateError (DimensionTable wildcard) :=
  if (table.rows.map Dimension.name)[place]? = some name then .ok table
  else if taken : name ∈ table.rows.map Dimension.name then .error .nameTaken
  else .ok {
    rows := table.rows.modify place fun row => { row with name := name }
    names_nodup := by
      rw [map_modify (fun _ => name) fun _ => rfl]
      exact nodup_modify_of_notMem table.names_nodup taken place
    numbers_nodup := by
      rw [numbers_renamed]
      exact table.numbers_nodup }

def delete : DimensionTable wildcard where
  rows := table.rows.eraseIdx place
  names_nodup := table.names_nodup.sublist ((eraseIdx_sublist _ _).map _)
  numbers_nodup := table.numbers_nodup.sublist ((eraseIdx_sublist _ _).map _)

end

theorem create_eq_ok {table table' : DimensionTable wildcard} {name : String}
    (created : table.create name = .ok table') :
    ∃ room, table'.rows = table.rows ++ [⟨name, table.lastNum + 1, Nat.succ_pos _, room⟩] := by
  unfold create at created
  split at created
  · rename_i room
    split at created
    · cases created
    · cases created
      exact ⟨room, rfl⟩
  · cases created

theorem rename_numbers {table table' : DimensionTable wildcard} {place : Nat} {name : String}
    (renamed : table.rename place name = .ok table') :
    table'.rows.map Dimension.permissionNumber = table.rows.map Dimension.permissionNumber := by
  unfold rename at renamed
  split at renamed
  · cases renamed
    rfl
  · split at renamed
    · cases renamed
    · cases renamed
      exact numbers_renamed ..

theorem foldr_max_mem {numbers : List Nat} (nonzero : numbers.foldr max 0 ≠ 0) :
    numbers.foldr max 0 ∈ numbers := by
  induction numbers with
  | nil => exact absurd rfl nonzero
  | cons first rest ih =>
    rw [foldr_cons] at nonzero ⊢
    rcases Nat.le_total first (rest.foldr max 0) with le | ge
    · rw [Nat.max_eq_right le] at nonzero ⊢
      exact mem_cons_of_mem _ (ih nonzero)
    · rw [Nat.max_eq_left ge]
      exact mem_cons_self

end DimensionTable

/-- A request to the repository of one kind of dimension. -/
inductive DimensionRequest where
  | create (name : String)
  | update (id : Nat) (name : Option String)
  | delete (id : Nat)

/-- A dimension table with the ids of its rows, and with what it does not remember: the numbers
given so far and those of the deleted rows. -/
structure DimensionLedger (wildcard : Nat) where
  table : DimensionTable wildcard := .empty wildcard
  ids : List Nat := []
  nextId : Nat := 0
  given : List Nat := []
  retired : List Nat := []

namespace DimensionLedger

variable {wildcard : Nat}

/-- Serve a request; one that is refused, or whose row does not exist, changes nothing. -/
def serve (ledger : DimensionLedger wildcard) : DimensionRequest → DimensionLedger wildcard
  | .create name =>
    match ledger.table.create name with
    | .error _ => ledger
    | .ok table =>
      { ledger with
        table
        ids := ledger.ids ++ [ledger.nextId]
        nextId := ledger.nextId + 1
        given := (ledger.table.lastNum + 1) :: ledger.given }
  | .update _ none => ledger
  | .update id (some name) =>
    match ledger.table.rename (ledger.ids.idxOf id) name with
    | .error _ => ledger
    | .ok table => { ledger with table }
  | .delete id =>
    let place := ledger.ids.idxOf id
    { ledger with
      table := ledger.table.delete place
      ids := ledger.ids.eraseIdx place
      retired :=
        ((ledger.table.rows[place]?).map Dimension.permissionNumber).toList ++ ledger.retired }

/-- The life of a table from the start. -/
def after (requests : List DimensionRequest) : DimensionLedger wildcard :=
  requests.foldl serve {}

end DimensionLedger

section

variable (kind : DimensionKind) (requests : List DimensionRequest)

/-- **No number is handed to a second dimension**: what was stored under the number of a deleted
dimension never matches a member whose only assignment in the kind is one created since. -/
def NeverRehanded : Prop :=
  ∀ before name rest, requests = before ++ .create name :: rest →
    ∀ table, (DimensionLedger.after before : DimensionLedger kind.wildcard).table.create name =
        .ok table →
      ∀ row ∈ table.rows,
        row ∉ (DimensionLedger.after before : DimensionLedger kind.wildcard).table.rows →
        ∀ number ∈ (DimensionLedger.after before : DimensionLedger kind.wildcard).retired,
          NeverMatches kind number row.permissionNumber

/-- At each creation, the highest number in use is the highest ever given. -/
def HighestKept : Prop :=
  ∀ before name rest, requests = before ++ .create name :: rest →
    ∀ table, (DimensionLedger.after before : DimensionLedger kind.wildcard).table.create name =
        .ok table →
      ∀ number ∈ (DimensionLedger.after before : DimensionLedger kind.wildcard).given,
        number ≤ (DimensionLedger.after before : DimensionLedger kind.wildcard).table.lastNum

end

/-! ## What a table keeps over its life -/

namespace DimensionLedger

variable {wildcard : Nat}

/-- Every number given is in use or retired, and they were given without gaps. -/
structure Accounted (ledger : DimensionLedger wildcard) : Prop where
  used : ∀ number ∈ ledger.table.rows.map Dimension.permissionNumber, number ∈ ledger.given
  retired : ∀ number ∈ ledger.retired, number ∈ ledger.given ∧ number < wildcard
  kept : ∀ number ∈ ledger.given,
    number ∈ ledger.table.rows.map Dimension.permissionNumber ∨ number ∈ ledger.retired
  dense : ∀ number ∈ ledger.given, ∀ lower, 0 < lower → lower ≤ number → lower ∈ ledger.given

variable {ledger : DimensionLedger wildcard}

theorem Accounted.create {name : String} {table : DimensionTable wildcard}
    (accounted : ledger.Accounted) (created : ledger.table.create name = .ok table) :
    (ledger.serve (.create name)).Accounted := by
  obtain ⟨room, rows⟩ := DimensionTable.create_eq_ok created
  have numbers : table.rows.map Dimension.permissionNumber =
      ledger.table.rows.map Dimension.permissionNumber ++ [ledger.table.lastNum + 1] := by
    rw [rows, map_append]
    rfl
  have served : ledger.serve (.create name) = { ledger with
      table
      ids := ledger.ids ++ [ledger.nextId]
      nextId := ledger.nextId + 1
      given := (ledger.table.lastNum + 1) :: ledger.given } := by
    simp only [serve, created]
  rw [served]
  refine ⟨fun number member => ?_, fun number member => ?_, fun number member => ?_,
    fun number member lower pos le => ?_⟩
  · simp only [numbers] at member
    rcases mem_append.mp member with old | new
    · exact mem_cons_of_mem _ (accounted.used number old)
    · obtain rfl := mem_singleton.mp new
      exact mem_cons_self
  · have old := accounted.retired number member
    exact ⟨mem_cons_of_mem _ old.1, old.2⟩
  · simp only [numbers]
    rcases mem_cons.mp member with rfl | old
    · exact .inl (mem_append_right _ (mem_singleton_self _))
    · exact (accounted.kept number old).imp (mem_append_left _) id
  · rcases mem_cons.mp member with rfl | old
    · by_cases top : lower = ledger.table.lastNum + 1
      · exact top ▸ mem_cons_self
      · have nonzero : ledger.table.lastNum ≠ 0 := by omega
        refine mem_cons_of_mem _ (accounted.dense _ (accounted.used _
          (DimensionTable.foldr_max_mem nonzero)) lower pos ?_)
        exact Nat.le_of_lt_succ (Nat.lt_of_le_of_ne le top)
    · exact mem_cons_of_mem _ (accounted.dense number old lower pos le)

theorem Accounted.delete (accounted : ledger.Accounted) (id : Nat) :
    (ledger.serve (.delete id)).Accounted := by
  have split : ∀ number, number ∈ ledger.table.rows.map Dimension.permissionNumber →
      number ∈ (ledger.serve (.delete id)).table.rows.map Dimension.permissionNumber ∨
        number ∈ (ledger.serve (.delete id)).retired := by
    intro number member
    obtain ⟨row, isRow, rfl⟩ := mem_map.mp member
    obtain ⟨index, found⟩ := mem_iff_getElem?.mp isRow
    by_cases here : index = ledger.ids.idxOf id
    · refine .inr (mem_append_left _ ?_)
      rw [← here, found]
      exact mem_singleton_self _
    · exact .inl (mem_map_of_mem (mem_eraseIdx_iff_getElem?.mpr ⟨index, here, found⟩))
  have wasRow : ∀ number ∈ ((ledger.table.rows[ledger.ids.idxOf id]?).map
      Dimension.permissionNumber).toList,
      number ∈ ledger.given ∧ number < wildcard := by
    intro number member
    obtain ⟨row, found, rfl⟩ := Option.map_eq_some_iff.mp (Option.mem_toList.mp member)
    exact ⟨accounted.used _ (mem_map_of_mem (mem_of_getElem? found)), row.lt_wildcard⟩
  refine ⟨fun number member => ?_, fun number member => ?_, fun number member => ?_,
    accounted.dense⟩
  · obtain ⟨row, isRow, rfl⟩ := mem_map.mp member
    exact accounted.used _ (mem_map_of_mem (mem_of_mem_eraseIdx isRow))
  · rcases mem_append.mp member with new | old
    · exact wasRow number new
    · exact accounted.retired number old
  · rcases accounted.kept number member with used | retired
    · exact split number used
    · exact .inr (mem_append_right _ retired)

/-- **Every request keeps the account.** -/
theorem Accounted.serve (accounted : ledger.Accounted) (request : DimensionRequest) :
    (ledger.serve request).Accounted := by
  cases request with
  | create name =>
    cases created : ledger.table.create name with
    | error refusal => simpa only [DimensionLedger.serve, created] using accounted
    | ok table => exact accounted.create created
  | update id name =>
    cases name with
    | none => exact accounted
    | some name =>
      cases renamed : ledger.table.rename (ledger.ids.idxOf id) name with
      | error refusal => simpa only [DimensionLedger.serve, renamed] using accounted
      | ok table =>
        simp only [DimensionLedger.serve, renamed]
        have numbers := DimensionTable.rename_numbers renamed
        refine ⟨?_, accounted.retired, ?_, accounted.dense⟩
        · simpa only [numbers] using accounted.used
        · simpa only [numbers] using accounted.kept
  | delete id => exact accounted.delete id

theorem accounted_after (requests : List DimensionRequest) :
    (after requests : DimensionLedger wildcard).Accounted := by
  induction requests using List.reverseRecOn with
  | nil => exact ⟨nofun, nofun, nofun, nofun⟩
  | append_singleton requests request ih =>
    rw [after, foldl_append]
    exact ih.serve request

/-- A creation's number is that of no deleted dimension exactly when no number ever given is
above those in use. -/
theorem Accounted.fresh_iff {kind : DimensionKind} {ledger : DimensionLedger kind.wildcard}
    (accounted : ledger.Accounted) {name : String} {table : DimensionTable kind.wildcard}
    (created : ledger.table.create name = .ok table) :
    (∀ row ∈ table.rows, row ∉ ledger.table.rows → ∀ number ∈ ledger.retired,
        NeverMatches kind number row.permissionNumber) ↔
      ∀ number ∈ ledger.given, number ≤ ledger.table.lastNum := by
  obtain ⟨room, rows⟩ := DimensionTable.create_eq_ok created
  rw [rows]
  have isNew := ledger.table.succ_lastNum_notMem
  constructor
  · intro never number given
    by_contra above
    have handed : ledger.table.lastNum + 1 ∈ ledger.given :=
      accounted.dense number given _ (Nat.succ_pos _) (Nat.lt_of_not_le above)
    have retired : ledger.table.lastNum + 1 ∈ ledger.retired :=
      (accounted.kept _ handed).resolve_left isNew
    have notOld : (⟨name, ledger.table.lastNum + 1, Nat.succ_pos _, room⟩ :
        Dimension kind.wildcard) ∉ ledger.table.rows :=
      fun old => isNew (mem_map_of_mem old)
    have clash := never _ (mem_append_right _ (mem_singleton_self _)) notOld _ retired
    exact (neverMatches_iff room room).mp clash rfl
  · intro kept row member notOld number retired
    obtain rfl := mem_singleton.mp ((mem_append.mp member).resolve_left notOld)
    obtain ⟨given, range⟩ := accounted.retired number retired
    exact (neverMatches_iff range room).mpr (Nat.ne_of_lt (Nat.lt_succ_of_le (kept number given)))

end DimensionLedger

/-- **No number is handed out twice exactly when every creation finds the row with the highest
number ever given still there.** -/
theorem neverRehanded_iff (kind : DimensionKind) (requests : List DimensionRequest) :
    NeverRehanded kind requests ↔ HighestKept kind requests := by
  constructor
  · intro never before name rest split table created
    exact ((DimensionLedger.accounted_after before).fresh_iff created).mp
      (never before name rest split table created)
  · intro kept before name rest split table created
    exact ((DimensionLedger.accounted_after before).fresh_iff created).mpr
      (kept before name rest split table created)

/-- North is deleted and Sales is created: Sales gets North's number. -/
theorem region_rehanded :
    ¬ NeverRehanded .region [.create "North", .delete 0, .create "Sales"] := by
  intro never
  have created : (DimensionLedger.after [.create "North", .delete 0] :
      DimensionLedger maxRegion).table.create "Sales" =
      .ok ⟨[⟨"Sales", 1, by decide, by decide⟩], by decide, by decide⟩ := rfl
  have clash := never [.create "North", .delete 0] "Sales" [] rfl _ created
    ⟨"Sales", 1, by decide, by decide⟩ (by decide) (by decide) 1 (by decide)
  exact (neverMatches_iff (by decide) (by decide)).mp clash rfl

end RedArchKM.Access
