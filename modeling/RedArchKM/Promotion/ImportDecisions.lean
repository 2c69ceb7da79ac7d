import RedArchKM.Promotion.Importer

/-!
# What an import can decide

Every pass decides by the row that the object matches (`matchOf`) and by the strategy. A matched
row is kept, or under `overwrite` written over, or under `rename` left beside a new row; an object
that matches nothing is created (`decisionOf_decided`). So under `skip` no pass writes to the
columns of a row.
-/

namespace RedArchKM.Promotion

open Workflow (Fields Json)
open Columns List Option
open Lib.Fallible (Ensures)

/-! ## Decisions -/

/-- Whether a pass may create a row for an object: nothing matches it, or copies are made. Some
passes make copies where others write over the row. -/
def MayCreate (strategy : CollisionStrategy) (copies : Bool) (found : Option Match) : Prop :=
  found = none ∨ strategy = .rename ∨ (copies = true ∧ strategy = .overwrite)

/-- What a pass may decide about an object that matches that row, if any. -/
inductive Decided (strategy : CollisionStrategy) (copies : Bool) (found : Option Match) :
    Change → Prop where
  | leave {action : Option Action} {tried : List String}
      (quiet : ∀ taken ∈ action, taken = .skipped ∨ taken = .failed) :
      Decided strategy copies found (.leave action tried)
  | keep {matched : Match} {write : Write} (isFound : found = some matched)
      (columns : write.columns = matched.row.columns) (action : write.action = .skipped) :
      Decided strategy copies found (.update matched.row write)
  | overwrite {matched : Match} {write : Write} (isFound : found = some matched)
      (isOverwrite : strategy = .overwrite)
      (action : write.action = .overwritten ∨ write.action = .failed) :
      Decided strategy copies found (.update matched.row write)
  | create {collides : Option Row} {listed : Bool} {write : Write}
      (isFound : found.map Match.row = collides) (allowed : MayCreate strategy copies found)
      (action : write.action = (if collides.isNone then .created else .renamed) ∨
        write.action = .failed) :
      Decided strategy copies found (.create collides listed write)

theorem decided_onCollision {strategy : CollisionStrategy} {copies : Bool} {found : Option Match}
    {skip overwrite : Match → Option Change} {create : Option Row → Option Change}
    {change : Change} (decided : onCollision strategy found skip overwrite create = some change)
    (skips : ∀ matched, found = some matched → ∀ change, skip matched = some change →
      Decided strategy copies found change)
    (overwrites : strategy = .overwrite → ∀ matched, found = some matched →
      ∀ change, overwrite matched = some change → Decided strategy copies found change)
    (creates : MayCreate strategy copies found → ∀ change,
      create (found.map Match.row) = some change → Decided strategy copies found change) :
    Decided strategy copies found change := by
  cases found with
  | none => exact creates (.inl rfl) change decided
  | some matched =>
    cases strategy with
    | skip => exact skips matched rfl change decided
    | overwrite => exact overwrites rfl matched rfl change decided
    | rename => exact creates (.inr (.inl rfl)) change decided

variable {services : Services} {strategy : CollisionStrategy} {copies : Bool} {s : ImportState}
  {found : Option Match} {change : Change}

variable {matched : Match}

theorem decided_keepSkipped (isFound : found = some matched)
    (kept : keepSkipped matched = some change) : Decided strategy copies found change := by
  cases kept
  exact .keep isFound rfl rfl

theorem decided_recordFailure {tried : List String} {attempt : Attempt Change}
    (ensures : Ensures (Decided strategy copies found) attempt)
    (recorded : recordFailure tried attempt = some change) : Decided strategy copies found change := by
  cases attempt with
  | ok decided =>
    cases recorded
    exact ensures _ rfl
  | error raised =>
    cases raised with
    | fatal => cases recorded
    | refused =>
      cases recorded
      exact .leave fun _ failed => .inr (some.inj failed).symm

theorem decided_orRaise {attempt : Attempt Change}
    (ensures : Ensures (Decided strategy copies found) attempt)
    (recorded : orRaise attempt = some change) : Decided strategy copies found change := by
  cases attempt with
  | error raised => cases recorded
  | ok decided =>
    cases recorded
    exact ensures _ rfl

theorem decided_create {listed : Bool} {write : Write} (allowed : MayCreate strategy copies found)
    (action : write.action =
        (if (found.map Match.row).isNone then .created else .renamed) ∨ write.action = .failed) :
    Decided strategy copies found (.create (found.map Match.row) listed write) :=
  .create rfl allowed action

/-! ## Entities -/

theorem overwriteEntity_decided {ent : Fields} (isFound : found = some matched)
    (isOverwrite : strategy = .overwrite) :
    Ensures (Decided strategy copies found) (overwriteEntity services s ent matched) := by
  refine .bind fun name _ => .bind fun fields _ => .bind fun objects _ => ?_
  dsimp only
  split
  · split
    · exact .pure (.overwrite isFound isOverwrite (.inr rfl))
    · exact .pure (.overwrite isFound isOverwrite (.inl rfl))
  · exact .error _

theorem createEntity_decided {ent : Fields} {name slug : Json}
    (allowed : MayCreate strategy copies found) :
    Ensures (Decided strategy copies found)
      (createEntity services s ent (found.map Match.row) name slug) := by
  refine .bind fun _ _ => .bind fun _ _ => .bind fun _ _ =>
    .bind fun _ _ => ?_
  refine .guard fun _ => .guard fun _ => .guard fun _ => ?_
  split
  · exact .pure (decided_create allowed (.inr rfl))
  · exact .pure (decided_create allowed (.inl rfl))

/-! ## Matches -/

def matchOf (services : Services) (rtype : ResourceType) (s : ImportState) (obj : Fields) :
    Option Match :=
  match rtype with
  | .folders => folderMatch services s obj (Fields.get obj "name")
  | .inboundEndpoints => endpointMatch s obj (Fields.get obj "name")
  | rtype => matchByColumn s rtype obj (naturalKeyColumn rtype)
      (Fields.get obj (naturalKeyColumn rtype))

theorem matchLineage_eq_some {incoming : Fields} {existing : List Row} {natural : Option Row}
    (found : matchLineage incoming existing natural = some matched) :
    (matched.byLineage = true ∧ matched.row ∈ existing ∧
      Json.str matched.row.lineage = Fields.get incoming "lineage_id") ∨
      (matched.byLineage = false ∧ natural = some matched.row) := by
  unfold matchLineage at found
  dsimp only at found
  split at found
  · rename_i row isRow
    cases found
    split at isRow
    · exact .inl ⟨rfl, mem_of_find?_eq_some isRow, by simpa using find?_some isRow⟩
    · cases isRow
  · obtain ⟨row, isRow, rfl⟩ := map_eq_some_iff.mp found
    exact .inr ⟨rfl, isRow⟩

theorem mem_of_byColumn {rows : List Row} {column : String} {value : Json} {row : Row}
    (found : byColumn rows column value = some row) : row ∈ rows ∧ row.column column = value :=
  ⟨mem_reverse.mp (mem_of_find?_eq_some found), by simpa using find?_some found⟩

variable {rtype : ResourceType} {obj : Fields}

theorem mem_of_listed {row : Row} (member : row ∈ s.listed rtype) :
    row ∈ s.org.rows rtype := (mem_filter.mp member).1

theorem mem_of_matchOf (found : matchOf services rtype s obj = some matched) :
    matched.row ∈ s.org.rows rtype := by
  have ofColumn {rtype : ResourceType} {column : String} {value : Json}
      (found : matchByColumn s rtype obj column value = some matched) :
      matched.row ∈ s.org.rows rtype := by
    rcases matchLineage_eq_some found with ⟨_, member, _⟩ | ⟨_, natural⟩
    · exact mem_of_listed member
    · exact mem_of_listed (mem_of_byColumn natural).1
  unfold matchOf at found
  split at found
  · rcases matchLineage_eq_some found with ⟨_, member, _⟩ | ⟨_, natural⟩
    · exact mem_of_listed member
    · exact (mem_filter.mp (mem_of_find?_eq_some natural)).1
  · rcases matchLineage_eq_some found with ⟨_, member, _⟩ | ⟨_, natural⟩
    · exact mem_of_listed member
    · exact mem_of_listed (mem_of_find?_eq_some natural)
  · exact ofColumn found

theorem get_of_lookup {name : String} {value : Json} (known : obj.lookup name = some value) :
    Fields.get obj name = value := by
  simp [Fields.get, known]

theorem get_of_key {name : String} {value : Json} (known : key obj name = .ok value) :
    Fields.get obj name = value := by
  unfold key at known
  split at known
  · cases known
    exact get_of_lookup ‹_›
  · cases known

/-- A pass that looks an object up by a key of its own, and passes over what it keeps. -/
theorem decided_keyed {obj : Fields} {column : String} {natural : Json → Option Match}
    {overwrite : Json → Match → Option Change} {create : Json → Option Row → Option Change}
    (decided : (match obj.lookup column with
      | none => none
      | some value => onCollision strategy (natural value) keepSkipped (overwrite value)
          (create value)) = some change)
    (overwrites : strategy = .overwrite → ∀ value matched, natural value = some matched →
      ∀ change, overwrite value matched = some change →
        Decided strategy copies (natural value) change)
    (creates : ∀ value, MayCreate strategy copies (natural value) → ∀ change,
      create value ((natural value).map Match.row) = some change →
        Decided strategy copies (natural value) change) :
    Decided strategy copies (natural (Fields.get obj column)) change := by
  split at decided
  · cases decided
  rename_i value known
  obtain rfl := get_of_lookup known
  exact decided_onCollision decided (fun _ isFound _ => decided_keepSkipped isFound)
    (overwrites · _) (creates _)

/-! ## The passes -/

theorem tagChange_decided {tag : Fields} (decided : tagChange services s tag = some change) :
    Decided strategy false (matchOf services .tags s tag) change := by
  unfold tagChange at decided
  dsimp only at decided
  split at decided
  · cases decided
    exact .leave fun _ none => by cases none
  split at decided
  · cases decided
    exact .leave fun _ skipped => .inl (some.inj skipped).symm
  split at decided
  · exact decided_keepSkipped ‹_› decided
  · cases decided
    rename_i unmatched
    have isFound : matchOf services .tags s tag = none := unmatched
    exact .create (by rw [isFound]; rfl) (.inl isFound) (.inl rfl)

theorem entityChange_decided {ent : Fields}
    (decided : entityChange services strategy s ent = some change) :
    Decided strategy false (matchOf services .entities s ent) change := by
  unfold entityChange at decided
  split at decided
  · cases decided
  rename_i slug known
  obtain rfl := get_of_key known
  refine decided_onCollision decided ?_ ?_ ?_
  · intro matched isFound change skipped
    split at skipped
    · cases skipped
      exact .leave fun _ failed => .inr (some.inj failed).symm
    · exact decided_keepSkipped isFound skipped
  · intro isOverwrite matched isFound change overwritten
    exact decided_recordFailure (overwriteEntity_decided isFound isOverwrite) overwritten
  · intro allowed change created
    obtain ⟨⟨name, slug⟩, _, recorded⟩ := bind_eq_some_iff.mp created
    exact decided_recordFailure (createEntity_decided allowed) recorded

theorem connectionChange_decided {conn : Fields}
    (decided : connectionChange services strategy s conn = some change) :
    Decided strategy false (matchOf services .connections s conn) change := by
  apply decided_keyed decided
  · intro isOverwrite name matched isFound change overwritten
    cases overwritten
    exact .overwrite isFound isOverwrite (.inl rfl)
  · intro name allowed change created
    refine decided_orRaise (.bind fun _ _ => .pure ?_) created
    exact decided_create allowed (.inl rfl)

theorem folderChange_decided {folder : Fields}
    (decided : folderChange services strategy s folder = some change) :
    Decided strategy false (matchOf services .folders s folder) change := by
  apply decided_keyed decided
  · intro isOverwrite name matched isFound change overwritten
    cases overwritten
    exact .overwrite isFound isOverwrite (.inl rfl)
  · intro name allowed change created
    refine decided_orRaise (.bind fun _ _ => .pure ?_) created
    exact decided_create allowed (.inl rfl)

theorem action_writeWorkflow (wf : Fields) (definition : Option Json) (workflowId : String)
    (columns : Fields) (linked : Bool) (action : Action) :
    (writeWorkflow services s wf definition workflowId columns linked action).action = action ∨
      (writeWorkflow services s wf definition workflowId columns linked action).action =
        .failed := by
  unfold writeWorkflow
  dsimp only
  split
  · exact .inl rfl
  · exact .inr rfl

theorem workflowChange_decided {wf : Fields}
    (decided : workflowChange services strategy s wf = some change) :
    Decided strategy false (matchOf services .workflows s wf) change := by
  apply decided_keyed decided
  · intro isOverwrite name matched isFound change overwritten
    obtain ⟨definition, _, written⟩ := bind_eq_some_iff.mp overwritten
    dsimp only at written
    split at written
    · cases written
      exact .leave fun _ failed => .inr (some.inj failed).symm
    split at written
    · cases written
      exact .overwrite isFound isOverwrite (action_writeWorkflow ..)
    · cases written
      exact .overwrite isFound isOverwrite (.inr rfl)
  · intro name allowed change created
    obtain ⟨definition, _, written⟩ := bind_eq_some_iff.mp created
    dsimp only at written
    split at written
    · cases written
      exact .leave fun _ failed => .inr (some.inj failed).symm
    split at written
    · cases written
      exact decided_create allowed (.inr rfl)
    split at written
    · cases written
      exact decided_create allowed (action_writeWorkflow ..)
    · cases written
      exact decided_create allowed (.inr rfl)

theorem createEndpoint_decided {ep : Fields} {name : Json}
    (allowed : MayCreate strategy copies found)
    (created : createEndpoint services s ep name (found.map Match.row) = some change) :
    Decided strategy copies found change := by
  obtain ⟨workflowId, _, created⟩ := bind_eq_some_iff.mp created
  split at created
  · cases created
    exact .leave fun _ failed => .inr (some.inj failed).symm
  · refine decided_orRaise (.bind fun _ _ => .pure ?_) created
    exact decided_create allowed (.inl rfl)

theorem endpointChange_decided {ep : Fields}
    (decided : endpointChange services strategy s ep = some change) :
    Decided strategy true (matchOf services .inboundEndpoints s ep) change := by
  unfold endpointChange at decided
  split at decided
  · cases decided
  rename_i name known
  obtain rfl := get_of_lookup known
  refine decided_onCollision decided ?_ ?_ fun allowed _ => createEndpoint_decided allowed
  · intro matched isFound change kept
    cases kept
    exact .keep isFound rfl rfl
  · intro isOverwrite matched isFound change created
    refine createEndpoint_decided (.inr (.inr ⟨rfl, isOverwrite⟩)) (?_ : createEndpoint
      services s ep (Fields.get ep "name") _ = some change)
    rwa [isFound]

theorem reportChange_decided {report : Fields}
    (decided : reportChange services strategy s report = some change) :
    Decided strategy false (matchOf services .reports s report) change := by
  apply decided_keyed decided
  · intro isOverwrite name matched isFound change
    refine decided_recordFailure (.bind fun entityId _ => ?_)
    refine .bind fun parts _ => .guard fun _ => ?_
    refine .bind fun name _ => .bind fun body _ => .guard fun _ => ?_
    exact .pure (.overwrite isFound isOverwrite (.inl rfl))
  · intro name allowed change
    refine decided_recordFailure (.bind fun entityId _ => ?_)
    refine .bind fun parts _ => .bind fun slug _ => .bind fun name _ =>
      .bind fun name' _ => .bind fun body _ => ?_
    refine .guard fun _ => .guard fun _ => .guard fun _ => ?_
    exact .pure (decided_create allowed (.inl rfl))

theorem layoutChange_decided {kind : LayoutKind} {resource : Fields}
    (decided : layoutChange services strategy kind s resource = some change) :
    Decided strategy false (matchByColumn s kind.resourceType resource "slug"
      (Fields.get resource "slug")) change := by
  apply decided_keyed decided
  · intro isOverwrite name matched isFound change
    refine decided_recordFailure (.bind fun entityId _ => .bind fun config _ => ?_)
    refine .bind fun name _ => .bind fun body _ => .guard fun _ => ?_
    exact .pure (.overwrite isFound isOverwrite (.inl rfl))
  · intro name allowed change
    refine decided_recordFailure (.bind fun entityId _ => .bind fun config _ => ?_)
    refine .bind fun slug _ => .bind fun name _ => .bind fun name' _ =>
      .bind fun body _ => ?_
    refine .guard fun _ => .guard fun _ => .guard fun _ => ?_
    exact .pure (decided_create allowed (.inl rfl))

theorem mcpServerChange_decided {srv : Fields}
    (decided : mcpServerChange services strategy s srv = some change) :
    Decided strategy false (matchOf services .mcpServers s srv) change := by
  apply decided_keyed decided
  · intro isOverwrite name matched isFound change overwritten
    cases overwritten
    exact .overwrite isFound isOverwrite (.inl rfl)
  · intro name allowed change created
    refine decided_orRaise (.bind fun _ _ => .pure ?_) created
    exact decided_create allowed (.inl rfl)

theorem agentChange_decided {agent : Fields}
    (decided : agentChange services strategy s agent = some change) :
    Decided strategy false (matchOf services .agents s agent) change := by
  apply decided_keyed decided
  · intro isOverwrite name matched isFound change
    refine decided_orRaise (.bind fun _ _ => .pure ?_)
    exact .overwrite isFound isOverwrite (.inl rfl)
  · intro name allowed change created
    refine decided_orRaise (.bind fun _ _ => .bind fun _ _ => .pure ?_) created
    exact decided_create allowed (.inl rfl)

/-- **Every pass decides by the row that the object matches and the strategy.** -/
theorem decisionOf_decided (decided : decisionOf services strategy rtype s obj = some change) :
    Decided strategy (rtype = .inboundEndpoints) (matchOf services rtype s obj) change := by
  cases rtype with
  | tags => exact tagChange_decided decided
  | entities => exact entityChange_decided decided
  | connections => exact connectionChange_decided decided
  | folders => exact folderChange_decided decided
  | workflows => exact workflowChange_decided decided
  | inboundEndpoints => exact endpointChange_decided decided
  | reports => exact reportChange_decided decided
  | forms => exact layoutChange_decided decided
  | views => exact layoutChange_decided decided
  | mcpServers => exact mcpServerChange_decided decided
  | agents => exact agentChange_decided decided
  | records =>
    cases decided
    exact .leave fun _ none => by cases none
  | documents =>
    cases decided
    exact .leave fun _ none => by cases none

end RedArchKM.Promotion
