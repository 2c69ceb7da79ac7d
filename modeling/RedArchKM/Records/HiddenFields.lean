import RedArchKM.Records.Erasure

/-!
# Fields that only the server may see

Two tables that differ in nothing but the values of fields flagged `server_only` cannot be told
apart by a caller without privileges: whatever they call, in whatever order, all replies are the
same (`session_eq_of_alike`). And no call changes such a value of a row that is there: rows go, one
row is added, but the hidden values of the others stay with their ids (`answer_keepsHidden`).
-/

namespace RedArchKM.Records

open Lib List
open Lib.Query (Row)

variable {σ ν : Type}

/-! ## Calls -/

inductive Call (ν : Type) where
  | list (request : Repository.ListRequest ν)
  | get (recordId : ν)
  | findOneByField (slug : String) (value : Option ν) (caseInsensitive : Bool)
  | aggregate (query : Repository.AggregateQuery ν)
  | create (payload : List (String × Option ν))
  | update (recordId : ν) (patch : List (String × Option ν))
  | delete (recordId : ν)

inductive Reply (ν : Type) where
  | page (records : List (Public ν)) (next : Option (Repository.RecordCursor ν))
  | record (found : Option (Public ν))
  | aggregated (result : Repository.AggregateResult ν)
  | created (record : Public ν)
  | deleted (gone : Bool)

namespace Repository

variable (env : Environment σ ν) (repo : Repository ν)

/-- What a call returns or raises, and what it leaves. -/
def answer (moment : Moment ν) (call : Call ν) (db : Database σ ν) :
    Except Failure (Reply ν) × Database σ ν :=
  match call with
  | .list request => ((repo.list env request db).map fun (records, next) => .page records next, db)
  | .get recordId => (.ok (.record (repo.get env recordId db)), db)
  | .findOneByField slug value caseInsensitive =>
    ((repo.findOneByField env slug value caseInsensitive db).map .record, db)
  | .aggregate query => ((repo.aggregate env query db).map .aggregated, db)
  | .create payload =>
    ((repo.create env moment payload db).1.map .created, (repo.create env moment payload db).2)
  | .update recordId patch =>
    ((repo.update env moment recordId patch db).1.map .record,
      (repo.update env moment recordId patch db).2)
  | .delete recordId =>
    ((repo.delete env recordId db).1.map .deleted, (repo.delete env recordId db).2)

/-- Calls one after the other, each at its moment. One that fails does not end the session. -/
def session : List (Moment ν × Call ν) → Database σ ν → List (Except Failure (Reply ν)) × Database σ ν
  | [], db => ([], db)
  | (moment, call) :: rest, db =>
    let after := repo.answer env moment call db
    let later := session rest after.2
    (after.1 :: later.1, later.2)

variable {env repo} {db db' : Database σ ν}

/-! ## Two tables -/

/-- The databases differ in hidden values only. -/
def Alike (repo : Repository ν) (db db' : Database σ ν) : Prop :=
  db.rest = db'.rest ∧
    List.Forall₂ (fun row row' : Row String ν =>
      ∀ column, repo.catalog.serverOnly column = false → row column = row' column) db.rows db'.rows

theorem erased_eq_of_alike (alike : repo.Alike db db') : repo.erased db = repo.erased db' := by
  obtain ⟨rows, rest⟩ := db
  obtain ⟨rows', rest'⟩ := db'
  obtain ⟨rfl, alikeRows⟩ := alike
  dsimp only at alikeRows
  have sameRows : rows.map (Query.erase repo.catalog.serverOnly) =
      rows'.map (Query.erase repo.catalog.serverOnly) := by
    induction alikeRows with
    | nil => rfl
    | cons same _ ih =>
      rw [map_cons, map_cons, ih]
      congr 1
      funext column
      unfold Query.erase
      split
      · rfl
      · rename_i visible
        exact same column (by simpa using visible)
  exact congrArg (fun rows => ({ rows := rows, rest := rest } : Database σ ν)) sameRows

section Blind

variable (blind : repo.privileged = false) (unconstrained : repo.Unconstrained)
include blind unconstrained

/-- **A call on the table is a call on the table without the hidden values.** -/
theorem answer_erased (moment : Moment ν) (call : Call ν) (db : Database σ ν) :
    repo.answer env moment call (repo.erased db) =
      ((repo.answer env moment call db).1, repo.erased (repo.answer env moment call db).2) := by
  cases call with
  | list request => rw [answer, answer, list_erased blind]
  | get recordId => rw [answer, answer, get_erased blind]
  | findOneByField slug value caseInsensitive =>
    rw [answer, answer, findOneByField_erased blind]
  | aggregate query => rw [answer, answer, aggregate_erased blind]
  | create payload => rw [answer, answer, create_erased blind unconstrained]
  | update recordId patch => rw [answer, answer, update_erased blind unconstrained]
  | delete recordId => rw [answer, answer, delete_erased]

variable (env) in
theorem session_erased (calls : List (Moment ν × Call ν)) (db : Database σ ν) :
    repo.session env calls (repo.erased db) =
      ((repo.session env calls db).1, repo.erased (repo.session env calls db).2) := by
  induction calls generalizing db with
  | nil => rfl
  | cons call rest ih =>
    simp only [session, answer_erased blind unconstrained, ih]

end Blind

/-! ## What stays -/

def hiddenPart (repo : Repository ν) (row : Row String ν) : Option ν × Row String ν :=
  (row "id", fun column => if repo.catalog.serverOnly column then row column else none)

/-- Rows may go, or one row comes, but no row that stays has another hidden value. -/
def KeepsHidden (repo : Repository ν) (before after : Database σ ν) : Prop :=
  (after.rows.map repo.hiddenPart).Sublist (before.rows.map repo.hiddenPart) ∨
    ∃ created, after.rows = before.rows ++ [created]

theorem KeepsHidden.refl (db : Database σ ν) : repo.KeepsHidden db db := .inl (Sublist.refl _)

theorem hiddenPart_assign {row : Row String ν} {values : List (String × Option ν)}
    (writable : ∀ cell ∈ values, repo.Writable cell.1) :
    repo.hiddenPart (Query.assign row values) = repo.hiddenPart row := by
  refine Prod.ext ?_ ?_
  · -- the id is protected like a hidden column
    have onlyId : ∀ cell ∈ values, decide (cell.1 = "id") = false :=
      fun cell member => decide_eq_false (writable cell member).2
    exact @Query.assign_hidden String ν (fun column => column = "id") row "id" _ values onlyId
      (decide_eq_true rfl)
  · funext column
    dsimp only [hiddenPart]
    split
    · rename_i isHidden
      exact Query.assign_hidden (fun cell member => (writable cell member).1) isHidden
    · rfl

theorem create_keepsHidden (moment : Moment ν) (payload : List (String × Option ν)) :
    repo.KeepsHidden db (repo.create env moment payload db).2 := by
  unfold create
  split
  · exact .refl db
  · dsimp only
    split
    · exact .inr ⟨_, rfl⟩
    · exact .inr ⟨_, rfl⟩

theorem update_keepsHidden (blind : repo.privileged = false) (moment : Moment ν) (recordId : ν)
    (patch : List (String × Option ν)) :
    repo.KeepsHidden db (repo.update env moment recordId patch db).2 := by
  unfold update
  split
  · exact .refl db
  · exact .refl db
  · rename_i row _ isRow
    have writable := writable_concat "updated_at" (some moment.now)
      (prepare_writable blind patch false db row isRow) (by decide)
    dsimp only
    split
    · exact .refl db
    · exact .refl db
    · left
      have same : ((db.rows.map fun found => if repo.isRecord env recordId found then
          Query.assign found (row ++ [("updated_at", some moment.now)]) else found).map
            repo.hiddenPart) = db.rows.map repo.hiddenPart := by
        rw [map_map]
        apply map_congr_left
        intro found _
        dsimp only [Function.comp_apply]
        split
        · exact hiddenPart_assign writable
        · rfl
      rw [same]

theorem delete_keepsHidden (recordId : ν) :
    repo.KeepsHidden db (repo.delete env recordId db).2 := by
  unfold delete
  split
  · exact .refl db
  · split
    · split
      · exact .refl db
      · rename_i cascade _
        left
        have same : repo.hiddenPart ∘ repo.unlink env cascade.unlinked = repo.hiddenPart := by
          funext row
          exact hiddenPart_assign unlink_writable
        rw [map_map, same]
        exact filter_sublist.map _
    · exact .refl db

/-- **No call changes a hidden value of a row that is there.** -/
theorem answer_keepsHidden (blind : repo.privileged = false) (moment : Moment ν) (call : Call ν) :
    repo.KeepsHidden db (repo.answer env moment call db).2 := by
  cases call with
  | list request => exact .refl db
  | get recordId => exact .refl db
  | findOneByField slug value caseInsensitive => exact .refl db
  | aggregate query => exact .refl db
  | create payload => exact create_keepsHidden moment payload
  | update recordId patch => exact update_keepsHidden blind moment recordId patch
  | delete recordId => exact delete_keepsHidden recordId

/-! ## Sessions -/

/-- **A caller without privileges learns nothing about hidden values, and changes none.** The two
sessions reply alike, and every call leaves the hidden values of the rows that it meets. -/
theorem session_eq_of_alike (blind : repo.privileged = false) (unconstrained : repo.Unconstrained)
    (alike : repo.Alike db db') (calls : List (Moment ν × Call ν)) :
    (repo.session env calls db).1 = (repo.session env calls db').1 ∧
      ∀ earlier moment call later, earlier ++ (moment, call) :: later = calls →
        repo.KeepsHidden (repo.session env earlier db).2
          (repo.answer env moment call (repo.session env earlier db).2).2 := by
  refine ⟨?_, fun earlier moment call _ _ => answer_keepsHidden blind moment call⟩
  have left := congrArg Prod.fst (session_erased env blind unconstrained calls db)
  have right := congrArg Prod.fst (session_erased env blind unconstrained calls db')
  rw [erased_eq_of_alike alike] at left
  exact left.symm.trans right

end Repository

/-! ## A quiz with its answers hidden -/

/-- Values that are texts. A pattern is matched by the text between its marks. -/
def texts : Environment Unit String where
  engine :=
    { equal := fun a b => a = b
      less := fun a b => a < b
      lower := String.toLower
      like := fun value pattern => pattern = "%" ++ value ++ "%"
      truncate := fun _ value => value
      number := toString
      sum := fun _ => ""
      average := fun _ => "" }
  python :=
    { text := some
      bool := fun _ => none
      items := fun _ => none
      isUuid := fun _ => false
      isFinite := fun _ => true
      str := fun value => value.getD "None"
      repr := id
      strip := id
      casefold := String.toLower
      lower := String.toLower
      ofText := id
      ofBool := toString
      date := some
      datetime := some
      int := some
      decimal := some
      uuid := some }
  accepts := fun _ _ => true
  physicalTable := fun _ _ => none
  idsIn := fun _ _ => []
  onDelete := fun _ _ id => some { rest := (), removed := [id], unlinked := [] }

def quiz : Catalog where
  definition := { id := 1, slug := "question", physicalTable := "ce_1" }
  fields := [{ slug := "title", physicalColumn := "f_1", fieldType := .text },
    { slug := "correct_answer", physicalColumn := "f_2", fieldType := .text,
      readAccess := .serverOnly }]
  relationships := []
  fieldSlugs_nodup := by decide
  relationshipSlugs_nodup := by decide
  columns_nodup := by decide

/-- A member who may not see the answers. -/
def learner : Repository String where
  catalog := quiz
  orgId := "school"

def question (answer : String) : Database Unit String where
  rows := [Query.assign (fun _ => none) [("id", some "q1"), ("org_id", some "school"),
    ("created_at", some "2024-01-01"), ("updated_at", some "2024-01-01"), ("f_1", some "Capital"),
    ("f_2", some answer)]]
  rest := ()

def probes : List (Repository.Moment String × Call String) :=
  [(⟨"2024-02-01", "q2"⟩, .list {}),
    (⟨"2024-02-02", "q3"⟩, .list { filters := .byValue [("correct_answer", some "Paris")] }),
    (⟨"2024-02-03", "q4"⟩, .update "q1" [("correct_answer", some "Rome"), ("title", some "City")])]

/-- A learner cannot tell the answers apart, neither by a filter nor by a write. -/
theorem session_eq_of_alike_quiz :
    (learner.session texts probes (question "Paris")).1 =
        (learner.session texts probes (question "London")).1 ∧
      ∀ earlier moment call later, earlier ++ (moment, call) :: later = probes →
        learner.KeepsHidden (learner.session texts earlier (question "Paris")).2
          (learner.answer texts moment call (learner.session texts earlier (question "Paris")).2).2 := by
  have unconstrained : learner.Unconstrained := by
    unfold Repository.Unconstrained
    decide
  have alike : learner.Alike (question "Paris") (question "London") := by
    refine ⟨rfl, .cons ?_ .nil⟩
    intro column visible
    have notAnswer : (column == "f_2") = false := by
      rw [beq_eq_false_iff_ne]
      rintro rfl
      revert visible
      decide
    simp only [Query.assign, lookup_cons, notAnswer, lookup_nil]
  exact Repository.session_eq_of_alike rfl unconstrained alike probes

end RedArchKM.Records
