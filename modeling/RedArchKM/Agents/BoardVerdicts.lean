import RedArchKM.Agents.ReviewTexts
import RedArchKM.Lib.History

/-!
# A gate opens on its board's verdicts

The diary of an order with what each line was written for. A docket that nobody disturbs (no
other text carries a marker of the review, names are plain, no agent sits on a board twice, and
whoever answers under the name of a seat answers that seat's question) reads back as it was written,
and a gate that clears a submission does so on the verdicts of the seats it convened
(`gateKept_of_undisturbed`).

A diary is in the order of its entries' times, so a new entry is its last.
-/

namespace RedArchKM.Agents

open List

open Lib (Moment History)

/-! ## The lines of a diary -/

/-- A line and what it was written for. The question of a verdict is the round (the place of its
convening) and the number of the seat it was put to; an ordinary consult has none. -/
inductive DiaryLine where
  | convened (gate : Gate) (digest : Digest) (seats : List Seat)
  | verdict (reviewer answer : String) (question : Option (Nat × Nat))
  | cleared (gate : Gate) (digest : Digest) (outcome : BoardOutcome)
  | other (text : String)

namespace DiaryLine

def text (platform : Platform) : DiaryLine → String
  | .convened gate digest seats => conveneMarker gate digest seats
  | .verdict reviewer answer _ =>
    verdictMarker reviewer (parseVerdict platform.letter answer)
      (takeChars 1500 (String.ofList (strip answer.toList)))
  | .cleared gate digest outcome => clearingLine gate digest outcome
  | .other text => text

def convening (gate : Gate) : DiaryLine → Option (Digest × List Seat)
  | .convened gate' digest seats => if gate' = gate then some (digest, seats) else none
  | _ => none

def round (gate : Gate) (digest : Digest) : DiaryLine → Option (List Seat)
  | .convened gate' digest' seats => if gate' = gate ∧ digest' = digest then some seats else none
  | _ => none

def clearsFor (gate : Gate) (digest : Digest) : DiaryLine → Bool
  | .cleared gate' digest' _ => gate' = gate && digest' = digest
  | _ => false

def filed (platform : Platform) : DiaryLine → Option (Verdict × String)
  | .verdict reviewer answer _ => some (parseVerdict platform.letter answer, reviewer)
  | _ => none

def answerTo (question : Nat × Nat) : DiaryLine → Option String
  | .verdict _ answer (some question') => if question' = question then some answer else none
  | _ => none

/-- A text that the review does not read. -/
structure Unmarked (platform : Platform) (text : String) : Prop where
  convenes : ∀ gate, Agents.convenes gate text = false
  clears : ∀ gate digest, Agents.clears gate digest text = false
  files : filedVerdict platform.letter text = none

/-- A line that reads back as it was written. -/
def Clean (platform : Platform) : DiaryLine → Prop
  | .convened _ _ seats => seats ≠ [] ∧ ∀ seat ∈ seats, Plain seat.agent
  | .verdict reviewer answer question =>
    Plain reviewer ∧
      (∀ gate, convenes gate ((verdict reviewer answer question).text platform) = false) ∧
      ∀ gate digest, clears gate digest ((verdict reviewer answer question).text platform) = false
  | .cleared _ _ outcome =>
    (∀ entry ∈ outcome.verdicts, Plain entry.1) ∧ ∀ name ∈ outcome.failed, Plain name
  | .other text => Unmarked platform text

end DiaryLine

def lastOf {α : Type} (read : DiaryLine → Option α) (lines : List DiaryLine) : Option (Nat × α) :=
  ((lines.mapIdx fun place line => (read line).map fun found => (place, found)).filterMap id).getLast?

section

variable (lines : List DiaryLine) (gate : Gate)

def latestConvening : Option (Nat × Digest × List Seat) :=
  lastOf (DiaryLine.convening gate) lines

def latestRound (digest : Digest) : Option (Nat × List Seat) :=
  lastOf (DiaryLine.round gate digest) lines

def rounds : Nat :=
  lines.countP fun line => (line.convening gate).isSome

end

def answersTo (lines : List DiaryLine) (question : Nat × Nat) : List String :=
  lines.filterMap (DiaryLine.answerTo question)

/-- **What a submission is cleared on**: every seat of its latest round answered its question
with a PASS, or the rounds are used up and every seat of that round answered. -/
def HonestlyCleared (platform : Platform) (lines : List DiaryLine) (gate : Gate) (digest : Digest) :
    Prop :=
  ∃ round seats, latestRound lines gate digest = some (round, seats) ∧
    ((∀ seat < seats.length, ∃ answer, (answersTo lines (round, seat)).getLast? = some answer ∧
        parseVerdict platform.letter answer = .pass) ∨
      maxRounds ≤ rounds lines gate ∧ ∀ seat < seats.length, answersTo lines (round, seat) ≠ [])

/-! ## The docket of an order -/

/-- The tables, and the order's diary line by line. -/
structure Docket where
  world : World
  lines : List DiaryLine := []

inductive DocketEvent where
  /-- A run submits a plan or a deliverable to its gate; the seats are the order's board. -/
  | submit (ctx : ToolContext) (run : Nat) (title : String) (gate : Gate)
      (submission tasks : String) (seats : List Seat)
  /-- An agent replies to a question about the order. -/
  | reply (ctx : ToolContext) (row : AgentQuestion) (answer : String)
      (question : Option (Nat × Nat))
  /-- Anything else that is written into the order's diary. -/
  | write (entry : WorkOrderEntry)
  | elsewhere (world : World)

namespace Docket

def submitted (platform : Platform) (order : WorkOrderId) (gate : Gate) (submission : String)
    (seats : List Seat) (docket : Docket) : List DiaryLine :=
  let digest := platform.fingerprint submission
  let texts := docket.world.texts order
  if hasPassed texts gate digest || seats.isEmpty then []
  else
    let outcome := outcome platform.letter texts gate
    if lastDigest texts gate = some digest.text && outcome.settled then
      if outcome.approved || maxRounds ≤ roundsRun texts gate then [.cleared gate digest outcome]
      else []
    else
      match docket.world.seatAgents seats with
      | [] => []
      | staffed => [.convened gate digest (staffed.map Prod.fst)]

/-- Whether the question was put to a seat, which has not answered it. -/
def awaits (docket : Docket) : Option (Nat × Nat) → Bool
  | none => true
  | some (round, seat) =>
    (match docket.lines[round]? with
      | some (.convened _ _ seats) => seat < seats.length
      | _ => false) &&
      (answersTo docket.lines (round, seat)).isEmpty

def happen (platform : Platform) (order : WorkOrderId) (docket : Docket) :
    DocketEvent → Option Docket
  | .submit ctx run title gate submission tasks seats =>
    some
      { world :=
          (clearTheBoard platform ctx run order title gate submission tasks seats docket.world).1
        lines := docket.lines ++ docket.submitted platform order gate submission seats }
  | .reply ctx row answer question =>
    if row.workOrderId = some order ∧ row.audience = .agent ∧ docket.awaits question then
      some
        { world := recordVerdict platform ctx row answer docket.world
          lines := docket.lines ++ [.verdict ctx.agent.name answer question] }
    else none
  | .write entry =>
    if entry.workOrderId = order then
      some
        { world := { docket.world with entries := docket.world.entries ++ [entry] }
          lines := docket.lines ++ [.other entry.text] }
    else none
  | .elsewhere world =>
    if world.texts order = docket.world.texts order then some { docket with world } else none

end Docket

/-! ## Reading the lines back -/

section Reading

variable {platform : Platform} {line : DiaryLine} {lines : List DiaryLine} {gate : Gate}
  {digest : Digest}

theorem lastOf_append {α : Type} (read : DiaryLine → Option α) (lines : List DiaryLine)
    (line : DiaryLine) : lastOf read (lines ++ [line]) =
      match read line with
      | some found => some (lines.length, found)
      | none => lastOf read lines := by
  unfold lastOf
  cases here : read line with
  | some found => simp [here]
  | none => simp [here]

theorem lastOf_inside {α : Type} {read : DiaryLine → Option α} {place : Nat} {found : α}
    (isLast : lastOf read lines = some (place, found)) : place < lines.length := by
  induction lines using List.reverseRecOn with
  | nil => cases isLast
  | append_singleton lines line ih =>
    rw [lastOf_append] at isLast
    rw [length_append, length_singleton]
    cases here : read line with
    | some found' =>
      rw [here] at isLast
      cases isLast
      exact Nat.lt_add_one _
    | none =>
      rw [here] at isLast
      exact Nat.lt_add_right 1 (ih isLast)

@[simp] theorem answersTo_append (lines lines' : List DiaryLine) (question : Nat × Nat) :
    answersTo (lines ++ lines') question = answersTo lines question ++ answersTo lines' question := by
  simp [answersTo]

theorem clearingLine_eq {outcome : BoardOutcome} (clean : (DiaryLine.cleared gate digest outcome).Clean
    platform) : ∃ note, clearingLine gate digest outcome =
      clearedMarker (clearingTag outcome.approved) gate digest note ∧ '[' ∉ note.toList := by
  obtain ⟨verdicts, failed⟩ := clean
  have cleanVerdicts : '[' ∉ (", ".intercalate (outcome.verdicts.map Prod.fst)).toList :=
    not_mem_names (by simpa using verdicts) (by decide) (by decide)
  have cleanFailed : '[' ∉ ("unresolved: " ++ ", ".intercalate outcome.failed).toList := by
    rw [String.toList_append, mem_append, not_or]
    exact ⟨by decide, not_mem_names failed (by decide) (by decide)⟩
  unfold clearingLine clearingTag
  cases approved : outcome.approved with
  | true =>
    cases gate with
    | plan => exact ⟨_, rfl, cleanVerdicts⟩
    | delivery =>
      refine ⟨_, rfl, ?_⟩
      split
      · decide
      · exact cleanVerdicts
  | false =>
    cases gate with
    | plan => exact ⟨_, rfl, cleanFailed⟩
    | delivery =>
      refine ⟨_, rfl, ?_⟩
      split
      · decide
      · exact cleanVerdicts

theorem convenes_text (clean : line.Clean platform) (gate : Gate) :
    convenes gate (line.text platform) = (line.convening gate).isSome := by
  cases line with
  | convened gate' digest seats =>
    have same : convenes gate (conveneMarker gate' digest seats) ↔ gate = gate' :=
      convenes_conveneMarker clean.2
    rw [DiaryLine.text, DiaryLine.convening, Bool.eq_iff_iff, same]
    by_cases isGate : gate = gate'
    · simp [isGate]
    · simp [isGate, Ne.symm isGate]
  | verdict reviewer answer question => exact clean.2.1 gate
  | cleared gate' digest outcome =>
    obtain ⟨note, written, cleanNote⟩ := clearingLine_eq clean
    rw [DiaryLine.text, written]
    exact not_convenes_clearedMarker _ cleanNote
  | other text => exact clean.convenes gate

theorem clears_text (clean : line.Clean platform) (gate : Gate) (digest : Digest) :
    clears gate digest (line.text platform) = line.clearsFor gate digest := by
  cases line with
  | convened gate' digest' seats => exact not_clears_conveneMarker clean.2
  | verdict reviewer answer question => exact clean.2.2 gate digest
  | cleared gate' digest' outcome =>
    obtain ⟨note, written, cleanNote⟩ := clearingLine_eq clean
    rw [DiaryLine.text, written, DiaryLine.clearsFor, Bool.eq_iff_iff,
      clears_clearedMarker _ cleanNote, Bool.and_eq_true, decide_eq_true_eq, decide_eq_true_eq]
    exact ⟨fun same => ⟨same.1.symm, same.2.symm⟩, fun same => ⟨same.1.symm, same.2.symm⟩⟩
  | other text => exact clean.clears gate digest

theorem filedVerdict_text (clean : line.Clean platform) :
    filedVerdict platform.letter (line.text platform) = line.filed platform := by
  cases line with
  | convened gate digest seats =>
    exact filedVerdict_of_lineRest (toList_conveneMarker gate digest seats) (by decide)
      (not_mem_names (by simpa using clean.2) (by decide) (by decide)) rfl
  | verdict reviewer answer question => exact filedVerdict_verdictMarker clean.1 _ _
  | cleared gate digest outcome =>
    obtain ⟨note, written, cleanNote⟩ := clearingLine_eq clean
    rw [DiaryLine.text, written]
    refine filedVerdict_of_lineRest (toList_clearedMarker _ gate digest note) ?_ cleanNote ?_
    · cases outcome.approved <;> decide
    · cases outcome.approved <;> rfl
  | other text => exact clean.files

theorem hasPassed_texts (clean : ∀ line ∈ lines, line.Clean platform) (gate : Gate)
    (digest : Digest) : hasPassed (lines.map (DiaryLine.text platform)) gate digest =
      lines.any (DiaryLine.clearsFor gate digest) := by
  rw [hasPassed_eq, any_map, Bool.eq_iff_iff, any_eq_true, any_eq_true]
  refine exists_congr fun line => and_congr_right fun member => ?_
  rw [Function.comp_apply, clears_text (clean line member) gate digest]

theorem roundsRun_texts (clean : ∀ line ∈ lines, line.Clean platform) (gate : Gate) :
    roundsRun (lines.map (DiaryLine.text platform)) gate = rounds lines gate := by
  unfold roundsRun rounds
  rw [countP_map]
  apply countP_congr
  intro line member
  have same := convenes_text (clean line member) gate
  have both : (contains convenedTag.toList (line.text platform).toList &&
      convenes gate (line.text platform)) = convenes gate (line.text platform) := by
    cases found : convenes gate (line.text platform) with
    | false => simp
    | true =>
      have tagged : contains convenedTag.toList (line.text platform).toList := by
        by_contra untagged
        rw [not_convenes_of_untagged (by simpa using untagged)] at found
        cases found
      simp [tagged]
  rw [Function.comp_apply, both, same]

theorem read_append (gate : Gate) (texts : List String) (text : String) :
    lastDigest (texts ++ [text]) gate =
        (if convenes gate text then ((digestIn text.toList).map String.ofList).or
          (lastDigest texts gate) else lastDigest texts gate) ∧
      currentSeats (texts ++ [text]) gate =
        (if convenes gate text then seatsIn text.toList else currentSeats texts gate) ∧
      sinceConvened (texts ++ [text]) gate =
        (if convenes gate text then [] else sinceConvened texts gate ++ [text]) := by
  unfold lastDigest currentSeats sinceConvened
  rw [reverse_append, reverse_singleton, singleton_append]
  cases found : convenes gate text with
  | true =>
    refine ⟨?_, ?_, ?_⟩
    · rw [findSome?_cons, found, if_pos rfl]
      cases (digestIn text.toList).map String.ofList <;> rfl
    · rw [find?_cons_of_pos found]
      rfl
    · rw [takeWhile_cons_of_neg (by simp [found])]
      rfl
  | false =>
    refine ⟨?_, ?_, ?_⟩
    · rw [findSome?_cons, found]
      rfl
    · rw [find?_cons_of_neg (by simp [found])]
      rfl
    · rw [takeWhile_cons_of_pos (by simp [found]), reverse_cons]
      rfl

theorem eq_convened_of_convening {seats : List Seat}
    (convened : line.convening gate = some (digest, seats)) :
    line = .convened gate digest seats := by
  cases line with
  | convened gate' digest' seats' =>
    simp only [DiaryLine.convening] at convened
    split at convened
    · rename_i same
      cases convened
      rw [same]
    · cases convened
  | _ => cases convened

/-- **The latest convening reads back**: its fingerprint, its seats and what came after it. -/
theorem read_texts (clean : ∀ line ∈ lines, line.Clean platform) (gate : Gate) :
    match latestConvening lines gate with
    | some (place, digest, seats) =>
      lastDigest (lines.map (DiaryLine.text platform)) gate = some digest.text ∧
      currentSeats (lines.map (DiaryLine.text platform)) gate = seats.map Seat.agent ∧
      sinceConvened (lines.map (DiaryLine.text platform)) gate =
        (lines.drop (place + 1)).map (DiaryLine.text platform) ∧
      latestRound lines gate digest = some (place, seats)
    | none =>
      lastDigest (lines.map (DiaryLine.text platform)) gate = none ∧
      currentSeats (lines.map (DiaryLine.text platform)) gate = [] := by
  induction lines using List.reverseRecOn with
  | nil => exact ⟨rfl, rfl⟩
  | append_singleton lines line ih =>
    have cleanLine : line.Clean platform := clean line (by simp)
    have before := ih fun line member => clean line (mem_append_left _ member)
    have convenesLine := convenes_text cleanLine gate
    rw [map_append, map_singleton]
    obtain ⟨readDigest, readSeats, readSince⟩ := read_append gate
      (lines.map (DiaryLine.text platform)) (line.text platform)
    rw [readDigest, readSeats, readSince, convenesLine]
    unfold latestConvening at before ⊢
    rw [lastOf_append]
    cases convened : line.convening gate with
    | some found =>
      obtain ⟨digest, seats⟩ := found
      obtain rfl := eq_convened_of_convening convened
      refine ⟨?_, ?_, ?_, ?_⟩
      · simp [DiaryLine.text, digestIn_conveneMarker]
      · simpa [DiaryLine.text] using seatsIn_conveneMarker cleanLine.2 cleanLine.1
      · simp
      · rw [latestRound, lastOf_append]
        simp [DiaryLine.round]
    | none =>
      cases latest : lastOf (DiaryLine.convening gate) lines with
      | none =>
        rw [latest] at before
        simpa using before
      | some found =>
        obtain ⟨place, digest, seats⟩ := found
        rw [latest] at before
        obtain ⟨isDigest, areSeats, isSince, isRound⟩ := before
        have inside := lastOf_inside latest
        have noRound : line.round gate digest = none := by
          cases line with
          | convened gate' digest' seats' =>
            simp only [DiaryLine.convening] at convened
            split at convened
            · cases convened
            · rename_i other
              simp [DiaryLine.round, other]
          | _ => rfl
        refine ⟨by simpa using isDigest, by simpa using areSeats, ?_, ?_⟩
        · rw [drop_append_of_le_length inside, map_append, ← isSince]
          rfl
        · rwa [latestRound, lastOf_append, noRound]

theorem mem_verdictsOf {letter : Char → Bool} {seats texts : List String} {who : String}
    {verdict : Verdict} (member : (who, verdict) ∈ verdictsOf letter seats texts) :
    who ∈ seats ∧ ∃ text ∈ texts, filedVerdict letter text = some (verdict, who) := by
  have set : ∀ {who' : String} {verdict' : Verdict} {verdicts : List (String × Verdict)},
      (who, verdict) ∈ setVerdict who' verdict' verdicts →
        (who, verdict) = (who', verdict') ∨ (who, verdict) ∈ verdicts := by
    intro who' verdict' verdicts
    induction verdicts with
    | nil => exact fun member => .inl (mem_singleton.mp member)
    | cons entry rest ih =>
      unfold setVerdict
      split
      · intro member
        exact (mem_cons.mp member).imp_right (mem_cons_of_mem _)
      · intro member
        rcases mem_cons.mp member with first | later
        · exact .inr (first ▸ mem_cons_self)
        · exact (ih later).imp_right (mem_cons_of_mem _)
  induction texts using List.reverseRecOn with
  | nil => cases member
  | append_singleton texts text ih =>
    have later : ((who, verdict) ∈ verdictsOf letter seats texts) →
        who ∈ seats ∧ ∃ text' ∈ texts ++ [text], filedVerdict letter text' = some (verdict, who) :=
      fun before => (ih before).imp_right fun ⟨text', listed, files⟩ =>
        ⟨text', mem_append_left _ listed, files⟩
    unfold verdictsOf at member
    rw [foldl_append] at member
    cases files : filedVerdict letter text with
    | none =>
      simp only [foldl_cons, foldl_nil, files] at member
      exact later member
    | some found =>
      simp only [foldl_cons, foldl_nil, files] at member
      split at member
      · rename_i seated
        rcases set member with same | before
        · cases same
          exact ⟨by simpa using seated, text, by simp, files⟩
        · exact later before
      · exact later member

def DiaryLine.filedUnder (platform : Platform) (name : String) (line : DiaryLine) : Option Verdict :=
  (line.filed platform).bind fun entry => if entry.2 = name then some entry.1 else none

theorem lookup_setVerdict (who name : String) (verdict : Verdict)
    (verdicts : List (String × Verdict)) : (setVerdict who verdict verdicts).lookup name =
      if who = name then some verdict else verdicts.lookup name := by
  induction verdicts with
  | nil => grind [setVerdict]
  | cons entry rest ih => grind [setVerdict]

/-- **The latest verdict under the name of a seat is the one that counts.** -/
theorem lookup_verdictsOf (clean : ∀ line ∈ lines, line.Clean platform) {seats : List String}
    {name : String} (seated : name ∈ seats) :
    (verdictsOf platform.letter seats (lines.map (DiaryLine.text platform))).lookup name =
      (lines.filterMap (DiaryLine.filedUnder platform name)).getLast? := by
  induction lines using List.reverseRecOn with
  | nil => rfl
  | append_singleton lines line ih =>
    have before := ih fun line member => clean line (mem_append_left _ member)
    rw [map_append, map_singleton, verdictsOf, foldl_append, foldl_cons, foldl_nil,
      filedVerdict_text (clean line (by simp)), ← verdictsOf, filterMap_append]
    cases files : line.filed platform with
    | none => simp [DiaryLine.filedUnder, files, before]
    | some found =>
      by_cases isName : found.2 = name
      · simp [DiaryLine.filedUnder, files, isName, seated, lookup_setVerdict]
      · have kept : (if seats.contains found.2 then
              setVerdict found.2 found.1 (verdictsOf platform.letter seats
                (lines.map (DiaryLine.text platform)))
            else verdictsOf platform.letter seats (lines.map (DiaryLine.text platform))).lookup name =
            (lines.filterMap (DiaryLine.filedUnder platform name)).getLast? := by
          split <;> simp [lookup_setVerdict, isName, before]
        simpa [DiaryLine.filedUnder, files, isName] using kept

/-- The review reads what the lines of a diary were written for. -/
structure ReadsBack (platform : Platform) (lines : List DiaryLine) (gate : Gate) : Prop where
  passed : ∀ digest, hasPassed (lines.map (DiaryLine.text platform)) gate digest =
    lines.any (DiaryLine.clearsFor gate digest)
  rounds : roundsRun (lines.map (DiaryLine.text platform)) gate = rounds lines gate
  round : ∀ place digest seats, latestConvening lines gate = some (place, digest, seats) →
    lastDigest (lines.map (DiaryLine.text platform)) gate = some digest.text ∧
    currentSeats (lines.map (DiaryLine.text platform)) gate = seats.map Seat.agent ∧
    ∀ seat ∈ seats, (outcome platform.letter (lines.map (DiaryLine.text platform))
        gate).verdicts.lookup seat.agent =
      ((lines.drop (place + 1)).filterMap (DiaryLine.filedUnder platform seat.agent)).getLast?

/-- **A diary of clean lines reads back**: what has passed, the rounds, and the verdicts of the
latest one. -/
theorem readsBack (platform : Platform)
    (lines : { lines : List DiaryLine // ∀ line ∈ lines, line.Clean platform }) (gate : Gate) :
    ReadsBack platform lines gate where
  passed := hasPassed_texts lines.2 gate
  rounds := roundsRun_texts lines.2 gate
  round place digest seats latest := by
    have reads := read_texts lines.2 gate
    rw [latest] at reads
    obtain ⟨sameDigest, sameSeats, since, -⟩ := reads
    refine ⟨sameDigest, sameSeats, fun seat isSeat => ?_⟩
    have seated : seat.agent ∈ seats.map Seat.agent := mem_map_of_mem isSeat
    have clean : ∀ line ∈ lines.1.drop (place + 1), line.Clean platform := fun line member =>
      lines.2 line (mem_of_mem_drop member)
    have later := lookup_verdictsOf clean seated
    rw [← since] at later
    unfold outcome
    rw [sameSeats]
    split
    · rename_i none
      rw [none] at seated
      cases seated
    · exact later

end Reading

/-- A board of one is convened, its reviewer passes the submission, and the gate clears it. -/
def reviewedLines : List DiaryLine :=
  [.convened .plan (plainPlatform.fingerprint "We launch.") [{ agent := "security" }],
    .verdict "security" "PASS" (some (0, 0)),
    .cleared .plan (plainPlatform.fingerprint "We launch.")
      { verdicts := [("security", .pass)] }]

theorem clean_reviewedLines : ∀ line ∈ reviewedLines, line.Clean plainPlatform := by
  have plain : Plain "security" := ⟨by decide, all_eq_true.mp rfl⟩
  unfold reviewedLines
  rw [forall_mem_cons, forall_mem_cons, forall_mem_singleton]
  refine ⟨⟨cons_ne_nil _ _, by simpa using plain⟩, ⟨plain, fun gate => ?_, fun gate digest => ?_⟩,
    by simpa using plain, nofun⟩
  · exact not_convenes_of_untagged (by decide) gate
  · exact not_clears_of_untagged (by decide) gate digest

theorem readsBack_reviewedLines : ReadsBack plainPlatform reviewedLines .plan ∧
    hasPassed (reviewedLines.map (DiaryLine.text plainPlatform)) .plan
      (plainPlatform.fingerprint "We launch.") = true := by
  have reads := readsBack plainPlatform ⟨reviewedLines, clean_reviewedLines⟩ .plan
  exact ⟨reads, (reads.passed _).trans (by decide)⟩

/-! ## What a gate does to the diary -/

section Submitting

variable {platform : Platform} {order : WorkOrderId} {docket : Docket} {gate : Gate}
  {submission : String} {seats : List Seat}

/-- The board lets the submission through: its latest round is for it and settled, and it is
approved or the rounds are used up. -/
structure LetThrough (platform : Platform) (texts : List String) (gate : Gate) (digest : Digest) :
    Prop where
  same : lastDigest texts gate = some digest.text
  settled : (outcome platform.letter texts gate).settled
  decided : (outcome platform.letter texts gate).approved ∨ maxRounds ≤ roundsRun texts gate

theorem texts_append (world : World) (entries : List WorkOrderEntry) :
    ({ world with entries := world.entries ++ entries } : World).texts order =
      world.texts order ++ (entries.filter fun entry => entry.workOrderId = order).map
        WorkOrderEntry.text := by
  simp [World.texts]

theorem texts_mark (world : World) (text : String) :
    (world.mark order text).texts order = world.texts order ++ [text] := by
  unfold World.mark
  rw [texts_append]
  simp

theorem entries_seatReviewers (ctx : ToolContext) (run : Nat) (order : WorkOrderId) (title : String)
    (gate : Gate) (submission tasks : String) (staffed : List (Seat × Agent)) (world : World) :
    (staffed.foldl (seatReviewer ctx run order title gate submission tasks) world).entries =
      world.entries := by
  induction staffed generalizing world with
  | nil => rfl
  | cons seat rest ih => exact ih _

/-- **What a submission does**: the lines it leaves, and what it is cleared on. -/
theorem clearTheBoard_spec (ctx : ToolContext) (run : Nat) (title tasks : String) :
    (clearTheBoard platform ctx run order title gate submission tasks seats docket.world).1.texts
        order = docket.world.texts order ++
          (docket.submitted platform order gate submission seats).map (DiaryLine.text platform) ∧
      ((clearTheBoard platform ctx run order title gate submission tasks seats docket.world).2 =
          .cleared →
        hasPassed (docket.world.texts order) gate (platform.fingerprint submission) ∨
          docket.world.seatAgents seats = [] ∨
          LetThrough platform (docket.world.texts order) gate (platform.fingerprint submission)) := by
  unfold clearTheBoard Docket.submitted
  dsimp only
  cases passed : hasPassed (docket.world.texts order) gate (platform.fingerprint submission) with
  | true => simp
  | false =>
    cases seats with
    | nil => simp [World.seatAgents]
    | cons seat rest =>
      simp only [Bool.false_eq_true, if_false, isEmpty_cons, Bool.or_false]
      split
      · rename_i settled
        simp only [Bool.and_eq_true, decide_eq_true_eq] at settled
        split
        · rename_i decided
          refine ⟨texts_mark _ _, fun _ => .inr (.inr ⟨settled.1, settled.2, ?_⟩)⟩
          simpa using decided
        · exact ⟨by simp, fun never => by cases never⟩
      · unfold convene
        cases staffed : docket.world.seatAgents (seat :: rest) with
        | nil => simp
        | cons first others =>
          rw [texts_mark]
          simp [World.texts, entries_seatReviewers, DiaryLine.text, -foldl_cons]

theorem submitted_cases (platform : Platform) (order : WorkOrderId) (gate : Gate)
    (submission : String) (seats : List Seat) (docket : Docket) :
    docket.submitted platform order gate submission seats = [] ∨
      hasPassed (docket.world.texts order) gate (platform.fingerprint submission) = false ∧
        (docket.submitted platform order gate submission seats =
            [.cleared gate (platform.fingerprint submission)
              (outcome platform.letter (docket.world.texts order) gate)] ∧
            LetThrough platform (docket.world.texts order) gate (platform.fingerprint submission) ∨
          docket.world.seatAgents seats ≠ [] ∧
            docket.submitted platform order gate submission seats =
              [.convened gate (platform.fingerprint submission)
                ((docket.world.seatAgents seats).map Prod.fst)]) := by
  unfold Docket.submitted
  dsimp only
  split
  · exact .inl rfl
  · rename_i open_
    simp only [Bool.or_eq_true, not_or, Bool.not_eq_true] at open_
    split
    · rename_i settled
      simp only [Bool.and_eq_true, decide_eq_true_eq] at settled
      split
      · rename_i decided
        refine .inr ⟨open_.1, .inl ⟨rfl, settled.1, settled.2, ?_⟩⟩
        simpa using decided
      · exact .inl rfl
    · cases staffed : docket.world.seatAgents seats with
      | nil => exact .inl rfl
      | cons first others => exact .inr ⟨open_.1, .inr ⟨cons_ne_nil _ _, rfl⟩⟩

end Submitting

/-! ## Undisturbed dockets -/

/-- Verdicts filed under the name of a seat of a gate's latest round answer that seat's question,
while the round's submission has not cleared. -/
def Attributed (lines : List DiaryLine) : Prop :=
  ∀ gate round digest seats, latestConvening lines gate = some (round, digest, seats) →
    lines.any (DiaryLine.clearsFor gate digest) = false →
    ∀ reviewer answer question, .verdict reviewer answer question ∈ lines.drop (round + 1) →
      reviewer ∈ seats.map Seat.agent → ∃ seat : Nat, question = some (round, seat) ∧
        (seats.map Seat.agent)[seat]? = some reviewer

def KeepsAttribution (lines : List DiaryLine) (line : DiaryLine) : Prop :=
  ∀ reviewer answer question, line = .verdict reviewer answer question →
    ∀ gate round digest seats, latestConvening lines gate = some (round, digest, seats) →
      lines.any (DiaryLine.clearsFor gate digest) = false →
      reviewer ∈ seats.map Seat.agent → ∃ seat : Nat, question = some (round, seat) ∧
        (seats.map Seat.agent)[seat]? = some reviewer

variable {lines : List DiaryLine}

theorem Attributed.append {line : DiaryLine} (attributed : Attributed lines)
    (keeps : KeepsAttribution lines line) : Attributed (lines ++ [line]) := by
  intro gate round digest seats latest open_ reviewer answer question member seated
  rw [any_append, Bool.or_eq_false_iff] at open_
  rw [latestConvening, lastOf_append] at latest
  cases convened : line.convening gate with
  | some found =>
    rw [convened] at latest
    cases latest
    rw [drop_eq_nil_of_le (by simp)] at member
    cases member
  | none =>
    rw [convened] at latest
    rw [drop_append_of_le_length (lastOf_inside latest)] at member
    rcases mem_append.mp member with old | new
    · exact attributed gate round digest seats latest open_.1 reviewer answer question old seated
    · exact keeps reviewer answer question (mem_singleton.mp new).symm gate round digest seats
        latest open_.1 seated

theorem mem_of_latestConvening {gate : Gate} {round : Nat} {digest : Digest} {seats : List Seat}
    (latest : latestConvening lines gate = some (round, digest, seats)) :
    .convened gate digest seats ∈ lines := by
  unfold latestConvening at latest
  induction lines using List.reverseRecOn with
  | nil => cases latest
  | append_singleton lines line ih =>
    rw [lastOf_append] at latest
    cases convened : line.convening gate with
    | none =>
      rw [convened] at latest
      exact mem_append_left _ (ih latest)
    | some found =>
      rw [convened] at latest
      cases latest
      obtain rfl := eq_convened_of_convening convened
      exact mem_append_right _ (mem_singleton_self _)

theorem HonestlyCleared.append {platform : Platform} {line : DiaryLine} {gate : Gate}
    {digest : Digest} (honest : HonestlyCleared platform lines gate digest)
    (noRound : line.round gate digest = none)
    (unanswered : ∀ question, answersTo lines question ≠ [] → line.answerTo question = none) :
    HonestlyCleared platform (lines ++ [line]) gate digest := by
  have same : ∀ question, answersTo lines question ≠ [] →
      answersTo (lines ++ [line]) question = answersTo lines question := by
    intro question answered
    simp [answersTo, unanswered question answered]
  obtain ⟨round, seats, isRound, passed | ⟨usedUp, answered⟩⟩ := honest
  · refine ⟨round, seats, ?_, .inl fun seat member => ?_⟩
    · rwa [latestRound, lastOf_append, noRound]
    · obtain ⟨answer, isLast, isPass⟩ := passed seat member
      refine ⟨answer, ?_, isPass⟩
      rwa [same _ (by rintro none; rw [none] at isLast; cases isLast)]
  · refine ⟨round, seats, ?_, .inr ⟨?_, fun seat member => ?_⟩⟩
    · rwa [latestRound, lastOf_append, noRound]
    · unfold rounds at usedUp ⊢
      rw [countP_append]
      exact Nat.le_add_right_of_le usedUp
    · rw [same _ (answered seat member)]
      exact answered seat member

namespace Docket

/-- A docket that reads back as it was written. -/
structure Sound (platform : Platform) (order : WorkOrderId) (docket : Docket) : Prop where
  texts : docket.world.texts order = docket.lines.map (DiaryLine.text platform)
  clean : ∀ line ∈ docket.lines, line.Clean platform
  answered : ∀ question, (answersTo docket.lines question).length ≤ 1
  /-- No agent sits on a board twice. -/
  distinct : ∀ gate digest seats, .convened gate digest seats ∈ docket.lines →
    (seats.map Seat.agent).Nodup
  attributed : Attributed docket.lines
  honest : ∀ gate digest, docket.lines.any (DiaryLine.clearsFor gate digest) →
    HonestlyCleared platform docket.lines gate digest

variable {platform : Platform} {order : WorkOrderId} {docket next : Docket}

section

variable (sound : docket.Sound platform order)

include sound

/-- **A board that lets a submission through has the answers of its seats.** -/
theorem Sound.honestlyCleared {gate : Gate} {digest : Digest}
    (open_ : hasPassed (docket.world.texts order) gate digest = false)
    (through : LetThrough platform (docket.world.texts order) gate digest) :
    HonestlyCleared platform docket.lines gate digest := by
  have read := read_texts sound.clean gate
  obtain ⟨same, settled, decided⟩ := through
  rw [sound.texts] at same settled decided open_
  rw [hasPassed_texts sound.clean] at open_
  cases latest : latestConvening docket.lines gate with
  | none =>
    rw [latest] at read
    rw [read.1] at same
    cases same
  | some found =>
    obtain ⟨round, digest', seats⟩ := found
    rw [latest] at read
    obtain ⟨isDigest, areSeats, isSince, isRound⟩ := read
    obtain rfl : digest' = digest := by
      obtain ⟨text, _, _⟩ := digest
      obtain ⟨text', _, _⟩ := digest'
      exact Digest.mk.injEq .. |>.mpr (Option.some.inj (isDigest.symm.trans same))
    have distinct : (seats.map Seat.agent).Nodup :=
      sound.distinct gate digest' seats (mem_of_latestConvening latest)
    -- A seat's verdict was filed under its name, so it is the one answer to its question.
    have answer_of : ∀ (seat : Nat) name, (seats.map Seat.agent)[seat]? = some name →
        ∀ verdict, (name, verdict) ∈ verdictsOf platform.letter (seats.map Seat.agent)
          (sinceConvened (docket.lines.map (DiaryLine.text platform)) gate) →
        ∃ answer, answersTo docket.lines (round, seat) = [answer] ∧
          parseVerdict platform.letter answer = verdict := by
      intro seat name isSeat verdict entry
      obtain ⟨-, text, inSince, files⟩ := mem_verdictsOf entry
      rw [isSince] at inSince
      obtain ⟨line, inLines, rfl⟩ := mem_map.mp inSince
      have listed : line ∈ docket.lines := mem_of_mem_drop inLines
      rw [filedVerdict_text (sound.clean line listed)] at files
      cases line with
      | verdict reviewer answer question =>
        cases files
        obtain ⟨asked, rfl, isAsked⟩ := sound.attributed gate round digest' seats latest open_ name
          answer question inLines (mem_of_getElem? isSeat)
        obtain rfl : asked = seat :=
          (getElem?_inj (List.getElem?_eq_some_iff.mp isAsked).1 distinct).mp
            (isAsked.trans isSeat.symm)
        have isAnswer : answer ∈ answersTo docket.lines (round, asked) :=
          mem_filterMap.mpr ⟨_, listed, by simp [DiaryLine.answerTo]⟩
        refine ⟨answer, ?_, rfl⟩
        obtain ⟨only, isOnly⟩ := length_eq_one_iff.mp (Nat.le_antisymm
          (sound.answered (round, asked)) (length_pos_of_mem isAnswer))
        rw [isOnly] at isAnswer ⊢
        rw [mem_singleton.mp isAnswer]
      | _ => cases files
    have outcomeIs : seats ≠ [] →
        outcome platform.letter (docket.lines.map (DiaryLine.text platform)) gate =
          { verdicts := verdictsOf platform.letter (seats.map Seat.agent)
              (sinceConvened (docket.lines.map (DiaryLine.text platform)) gate)
            pending := (seats.map Seat.agent).filter fun seat =>
              ((verdictsOf platform.letter (seats.map Seat.agent)
                (sinceConvened (docket.lines.map (DiaryLine.text platform)) gate)).lookup
                  seat).isNone
            failed := ((verdictsOf platform.letter (seats.map Seat.agent)
              (sinceConvened (docket.lines.map (DiaryLine.text platform)) gate)).filter
                fun entry => entry.2 = .fail).map Prod.fst } := by
      intro seated
      unfold outcome
      rw [areSeats]
      cases seats with
      | nil => exact absurd rfl seated
      | cons first rest => rfl
    have reported : ∀ (seat : Nat), seat < seats.length → seats ≠ [] ∧ ∃ name verdict,
        (seats.map Seat.agent)[seat]? = some name ∧
          (name, verdict) ∈ verdictsOf platform.letter (seats.map Seat.agent)
            (sinceConvened (docket.lines.map (DiaryLine.text platform)) gate) := by
      intro seat inside
      have seated : seats ≠ [] := List.ne_nil_of_length_pos (Nat.zero_lt_of_lt inside)
      have isSeat : (seats.map Seat.agent)[seat]? = some (seats[seat]).agent := by simp [inside]
      rw [outcomeIs seated, BoardOutcome.settled, List.isEmpty_iff,
        List.filter_eq_nil_iff] at settled
      have notPending := settled _ (mem_of_getElem? isSeat)
      obtain ⟨verdict, entry⟩ : ∃ verdict, ((seats[seat]).agent, verdict) ∈
          verdictsOf platform.letter (seats.map Seat.agent)
            (sinceConvened (docket.lines.map (DiaryLine.text platform)) gate) := by
        simpa using notPending
      exact ⟨seated, _, verdict, isSeat, entry⟩
    refine ⟨round, seats, isRound, ?_⟩
    rcases decided with approved | usedUp
    · refine .inl fun seat inside => ?_
      obtain ⟨seated, name, verdict, isSeat, entry⟩ := reported seat inside
      obtain ⟨answer, isAnswer, isVerdict⟩ := answer_of seat name isSeat verdict entry
      refine ⟨answer, by rw [isAnswer]; rfl, ?_⟩
      rw [isVerdict]
      rw [outcomeIs seated, BoardOutcome.approved, Bool.and_eq_true,
        List.isEmpty_iff, List.map_eq_nil_iff, List.filter_eq_nil_iff] at approved
      have notFail := approved.2 (name, verdict) entry
      cases verdict with
      | pass => rfl
      | fail => simp at notFail
    · refine .inr ⟨?_, fun seat inside => ?_⟩
      · rwa [roundsRun_texts sound.clean] at usedUp
      · obtain ⟨-, name, verdict, isSeat, entry⟩ := reported seat inside
        obtain ⟨answer, isAnswer, -⟩ := answer_of seat name isSeat verdict entry
        rw [isAnswer]
        exact cons_ne_nil _ _

theorem Sound.plain_of_outcome {gate : Gate} {entry : String × Verdict}
    (member : entry ∈ (outcome platform.letter (docket.world.texts order) gate).verdicts) :
    Plain entry.1 := by
  rw [sound.texts] at member
  unfold outcome at member
  split at member
  · cases member
  · obtain ⟨-, text, inSince, files⟩ := mem_verdictsOf member
    have listed := mem_reverse.mp ((takeWhile_sublist _).subset (mem_reverse.mp inSince))
    obtain ⟨line, inLines, rfl⟩ := mem_map.mp listed
    have clean := sound.clean line inLines
    rw [filedVerdict_text clean] at files
    cases line with
    | verdict reviewer answer question =>
      obtain ⟨-, rfl⟩ := Prod.mk.inj (Option.some.inj files)
      exact clean.1
    | _ => cases files

theorem Sound.clean_cleared (gate : Gate) (digest : Digest) : (DiaryLine.cleared gate digest
      (outcome platform.letter (docket.world.texts order) gate)).Clean platform := by
  refine ⟨fun entry member => sound.plain_of_outcome member, fun name member => ?_⟩
  have listed : name ∈
      (outcome platform.letter (docket.world.texts order) gate).verdicts.map Prod.fst := by
    unfold outcome at member ⊢
    split at member
    · cases member
    · obtain ⟨entry, failed, rfl⟩ := mem_map.mp member
      exact List.mem_map_of_mem (mem_filter.mp failed).1
  obtain ⟨entry, inVerdicts, rfl⟩ := mem_map.mp listed
  exact sound.plain_of_outcome inVerdicts

/-- **One more line keeps a docket sound.** -/
theorem Sound.extend {line : DiaryLine} (grown : next.lines = docket.lines ++ [line])
    (written : next.world.texts order = docket.world.texts order ++ [line.text platform])
    (clean : line.Clean platform)
    (distinct : ∀ gate digest seats, line = .convened gate digest seats →
      (seats.map Seat.agent).Nodup)
    (keeps : KeepsAttribution docket.lines line)
    (fresh : ∀ question, line.answerTo question ≠ none → answersTo docket.lines question = [])
    (noRound : ∀ gate digest, docket.lines.any (DiaryLine.clearsFor gate digest) →
      line.round gate digest = none)
    (through : ∀ gate digest, line.clearsFor gate digest →
      HonestlyCleared platform docket.lines gate digest ∧ line.round gate digest = none) :
    next.Sound platform order := by
  have unanswered : ∀ question, answersTo docket.lines question ≠ [] →
      line.answerTo question = none := by
    intro question answered
    by_contra some
    exact answered (fresh question some)
  refine ⟨?_, ?_, ?_, fun gate digest seats member => ?_, ?_, ?_⟩
  · rw [written, grown, sound.texts, map_append, map_singleton]
  · rw [grown]
    intro line' member
    rcases mem_append.mp member with old | new
    · exact sound.clean line' old
    · obtain rfl := mem_singleton.mp new
      exact clean
  · intro question
    rw [grown, answersTo_append]
    cases given : line.answerTo question with
    | none => simpa [answersTo, given] using sound.answered question
    | some answer =>
      rw [fresh question (by simp [given])]
      simp [answersTo, given]
  · rw [grown] at member
    rcases mem_append.mp member with old | new
    · exact sound.distinct gate digest seats old
    · exact distinct gate digest seats (mem_singleton.mp new).symm
  · rw [grown]
    exact sound.attributed.append keeps
  · rw [grown]
    intro gate digest cleared
    rw [any_append, Bool.or_eq_true] at cleared
    rcases cleared with old | new
    · exact (sound.honest gate digest old).append (noRound gate digest old) unanswered
    · obtain ⟨honest, none⟩ := through gate digest (by simpa using new)
      exact honest.append none unanswered

end

/-- The condition on what is written: a board's names are plain and distinct, a reply reads back as
the answer it is, and any other text carries no marker. -/
def Undisturbed (platform : Platform) (moment : Moment DocketEvent Docket) : Prop :=
  match moment.event with
  | .submit _ _ _ _ _ _ seats =>
    (∀ staffed ∈ moment.before.world.seatAgents seats, Plain staffed.1.agent) ∧
      ((moment.before.world.seatAgents seats).map fun staffed => staffed.1.agent).Nodup
  | .reply ctx _ answer question =>
    (DiaryLine.verdict ctx.agent.name answer question).Clean platform ∧
      KeepsAttribution moment.before.lines (.verdict ctx.agent.name answer question)
  | .write entry => DiaryLine.Unmarked platform entry.text
  | .elsewhere _ => True

def Happens (platform : Platform) (order : WorkOrderId) (docket : Docket) (event : DocketEvent)
    (next : Docket) : Prop :=
  docket.happen platform order event = some next

theorem Sound.submit {gate : Gate} {submission : String} {seats : List Seat} {world : World}
    (sound : docket.Sound platform order)
    (written : world.texts order = docket.world.texts order ++
      (docket.submitted platform order gate submission seats).map (DiaryLine.text platform))
    (plain : ∀ staffed ∈ docket.world.seatAgents seats, Plain staffed.1.agent)
    (distinct : ((docket.world.seatAgents seats).map fun staffed => staffed.1.agent).Nodup) :
    Sound platform order
      { world, lines := docket.lines ++ docket.submitted platform order gate submission seats } := by
  rcases submitted_cases platform order gate submission seats docket with
    nothing | ⟨open_, ⟨cleared, letThrough⟩ | ⟨seated, convened⟩⟩
  · rw [nothing, append_nil]
    rw [nothing, map_nil, append_nil] at written
    exact ⟨written.trans sound.texts, sound.clean, sound.answered, sound.distinct, sound.attributed,
      sound.honest⟩
  · rw [cleared] at written ⊢
    refine sound.extend rfl written (sound.clean_cleared _ _) nofun (fun _ _ _ never => by cases never)
      (fun _ never => absurd rfl never) (fun _ _ _ => rfl) fun gate' digest' clears => ⟨?_, rfl⟩
    simp only [DiaryLine.clearsFor, Bool.and_eq_true, decide_eq_true_eq] at clears
    obtain ⟨rfl, rfl⟩ := clears
    exact sound.honestlyCleared open_ letThrough
  · rw [convened] at written ⊢
    rw [sound.texts, hasPassed_texts sound.clean] at open_
    refine sound.extend rfl written ⟨by simpa using seated, ?_⟩
      (fun _ _ _ same => by cases same; rwa [map_map])
      (fun _ _ _ never => by cases never) (fun _ never => absurd rfl never)
      (fun gate' digest' cleared => ?_) (fun _ _ never => by cases never)
    · intro seat member
      obtain ⟨staffed, listed, rfl⟩ := mem_map.mp member
      exact plain staffed listed
    · -- A submission that has cleared is not convened for again.
      simp only [DiaryLine.round]
      split
      · rename_i same
        obtain ⟨rfl, rfl⟩ := same
        rw [open_] at cleared
        cases cleared
      · rfl

/-- **An undisturbed moment keeps a docket sound.** -/
theorem Sound.happens {event : DocketEvent} (sound : docket.Sound platform order)
    (happens : Happens platform order docket event next)
    (undisturbed : Undisturbed platform ⟨event, docket⟩) : next.Sound platform order := by
  cases event with
  | submit ctx run title gate submission tasks seats =>
    cases happens
    exact sound.submit (clearTheBoard_spec ctx run title tasks).1 undisturbed.1 undisturbed.2
  | reply ctx row answer question =>
    simp only [Happens, happen] at happens
    split at happens
    · rename_i asked
      obtain ⟨ofOrder, toAgent, awaits⟩ := asked
      cases happens
      have isVerdict : ∀ question', (DiaryLine.verdict ctx.agent.name answer question).answerTo
          question' ≠ none → question = some question' := by
        intro question' answers
        cases question with
        | none => exact absurd rfl answers
        | some asked =>
          simp only [DiaryLine.answerTo, ne_eq, ite_eq_right_iff, reduceCtorEq, imp_false,
            not_not] at answers
          rw [answers]
      refine sound.extend rfl ?_ undisturbed.1 nofun undisturbed.2 (fun question' answers => ?_)
        (fun _ _ _ => rfl) (fun _ _ never => by cases never)
      · simp only [recordVerdict, ofOrder, toAgent]
        rw [texts_append]
        simp [DiaryLine.text]
      · obtain rfl := isVerdict question' answers
        simp only [Docket.awaits, Bool.and_eq_true, List.isEmpty_iff] at awaits
        exact awaits.2
    · cases happens
  | write entry =>
    simp only [Happens, happen] at happens
    split at happens
    · rename_i ofOrder
      cases happens
      refine sound.extend rfl ?_ undisturbed nofun (fun _ _ _ never => by cases never)
        (fun _ never => absurd rfl never) (fun _ _ _ => rfl) (fun _ _ never => by cases never)
      rw [texts_append]
      simp [ofOrder, DiaryLine.text]
    · cases happens
  | elsewhere world =>
    simp only [Happens, happen] at happens
    split at happens
    · rename_i same
      cases happens
      exact ⟨same.trans sound.texts, sound.clean, sound.answered, sound.distinct, sound.attributed,
        sound.honest⟩
    · cases happens

/-! ## The gates -/

/-- What the moment owes: a submission that clears while a seat is staffed was cleared on its
board's verdicts, and a text that the review did not write changes nothing for any gate. -/
structure GateKept (platform : Platform) (order : WorkOrderId)
    (moment : Moment DocketEvent Docket) : Prop where
  cleared : ∀ ctx run title gate submission tasks seats,
    moment.event = .submit ctx run title gate submission tasks seats →
    (clearTheBoard platform ctx run order title gate submission tasks seats
      moment.before.world).2 = .cleared →
    moment.before.world.seatAgents seats ≠ [] →
    HonestlyCleared platform moment.before.lines gate (platform.fingerprint submission)
  unread : ∀ entry, moment.event = .write entry → ∀ gate,
    (∀ digest, hasPassed (moment.before.world.texts order ++ [entry.text]) gate digest =
      hasPassed (moment.before.world.texts order) gate digest) ∧
    outcome platform.letter (moment.before.world.texts order ++ [entry.text]) gate =
      outcome platform.letter (moment.before.world.texts order) gate

theorem outcome_append_unmarked {text : String} (unmarked : DiaryLine.Unmarked platform text)
    (texts : List String) (gate : Gate) :
    outcome platform.letter (texts ++ [text]) gate = outcome platform.letter texts gate := by
  obtain ⟨-, sameSeats, sameSince⟩ := read_append gate texts text
  rw [unmarked.convenes gate] at sameSeats sameSince
  simp only [Bool.false_eq_true, if_false] at sameSeats sameSince
  have sameVerdicts : ∀ seats, verdictsOf platform.letter seats (sinceConvened (texts ++ [text]) gate) =
      verdictsOf platform.letter seats (sinceConvened texts gate) := by
    intro seats
    rw [sameSince, verdictsOf, foldl_append, foldl_cons, foldl_nil, unmarked.files]
    rfl
  unfold outcome
  rw [sameSeats]
  simp only [sameVerdicts]

theorem Sound.gateKept {moment : Moment DocketEvent Docket}
    (sound : moment.before.Sound platform order) (undisturbed : Undisturbed platform moment) :
    GateKept platform order moment := by
  constructor
  · intro ctx run title gate submission tasks seats _ cleared staffed
    rcases (clearTheBoard_spec ctx run title tasks).2 cleared with passed | unstaffed | letThrough
    · apply sound.honest
      rwa [sound.texts, hasPassed_texts sound.clean] at passed
    · exact absurd unstaffed staffed
    · cases open_ : hasPassed (moment.before.world.texts order) gate
          (platform.fingerprint submission) with
      | false => exact sound.honestlyCleared open_ letThrough
      | true =>
        apply sound.honest
        rwa [sound.texts, hasPassed_texts sound.clean] at open_
  · intro entry isWrite gate
    have unmarked : DiaryLine.Unmarked platform entry.text := by
      unfold Undisturbed at undisturbed
      rw [isWrite] at undisturbed
      exact undisturbed
    refine ⟨fun digest => ?_, outcome_append_unmarked unmarked _ gate⟩
    rw [hasPassed_eq, hasPassed_eq, any_append]
    simp [unmarked.clears gate digest]

structure FromCreation (platform : Platform) (order : WorkOrderId)
    (history : History DocketEvent Docket) : Prop where
  start : ∃ docket : Docket, docket.world.texts order = [] ∧ docket.lines = [] ∧
    History.Steps (Happens platform order) { now := docket } history

/-- **Gates open on their boards' verdicts** in every history that nobody disturbs, and no other
text opens one or changes a verdict. -/
theorem gateKept_of_undisturbed (platform : Platform) (order : WorkOrderId)
    (history : History DocketEvent Docket) (fromCreation : FromCreation platform order history)
    (undisturbed : ∀ moment ∈ history.past, Undisturbed platform moment) :
    ∀ moment ∈ history.past, GateKept platform order moment := by
  obtain ⟨start, noTexts, noLines, steps⟩ := fromCreation.start
  have fresh : start.Sound platform order := by
    refine ⟨by rw [noTexts, noLines]; rfl, by simp [noLines], ?_, by simp [noLines], ?_,
      by simp [noLines]⟩
    · intro question
      rw [noLines]
      exact Nat.zero_le 1
    · rw [noLines]
      intro gate round digest seats latest
      cases latest
  have sound := steps.invariant (P := Sound platform order) (Undisturbed platform)
    (fun _ _ _ happens allowed sound => sound.happens happens allowed) undisturbed
    (by simpa [History.states] using fresh)
  intro moment member
  exact (sound _ (History.before_mem_states member)).gateKept (undisturbed moment member)

end Docket

/-! ## A board of one -/

def reviewer : Agent := { id := 1, name := "security", kind := .advisory }

def contextFor (agent : Agent) : ToolContext where
  agent
  runId := some agent.id
  workOrderId := some 0
  actorUserId := none
  viaApiKey := false
  apiKeyId := none
  toolCallId := some "c"

def submitPlan : DocketEvent :=
  .submit (contextFor clerk) 0 "Launch" .plan "We launch." "" [{ agent := "security" }]

def replyToClerk (answer : String) (question : Option (Nat × Nat)) : DocketEvent :=
  .reply (contextFor reviewer)
    { runId := 0, toolCallId := "c", askedByAgentId := 0, question := "Is it sound?",
      audience := .agent, workOrderId := some 0 } answer question

def launchDocket : Docket where
  world := { agents := [clerk, reviewer], runs := [] }

theorem fromCreation_launch {events : List DocketEvent} {history : History DocketEvent Docket}
    (played : History.play (Docket.happen plainPlatform 0) { now := launchDocket } events =
      some history) : Docket.FromCreation plainPlatform 0 history :=
  ⟨launchDocket, rfl, rfl, History.steps_of_play played⟩

/-- **A plan that its reviewer passes** is cleared on that verdict. -/
theorem gateKept_launch :
    ∃ history, History.play (Docket.happen plainPlatform 0) { now := launchDocket }
      [submitPlan, replyToClerk "PASS" (some (0, 0)), submitPlan] = some history ∧
      hasPassed (history.now.world.texts 0) .plan (plainPlatform.fingerprint "We launch.") ∧
      ∀ moment ∈ history.past, Docket.GateKept plainPlatform 0 moment := by
  refine History.exists_play rfl fun history played => ?_
  have isLast := Option.some.inj played
  refine ⟨by subst isLast; decide,
    Docket.gateKept_of_undisturbed plainPlatform 0 history (fromCreation_launch played) ?_⟩
  subst isLast
  have plainSeat : Plain "security" := ⟨by decide, all_eq_true.mp rfl⟩
  have seated : Docket.Undisturbed plainPlatform ⟨submitPlan, launchDocket⟩ := by
    refine ⟨fun staffed member => ?_, nodup_singleton _⟩
    obtain rfl := mem_singleton.mp member
    exact plainSeat
  intro moment member
  rcases mem_cons.mp member with rfl | member
  · exact seated
  · rcases mem_cons.mp member with rfl | member
    · refine ⟨⟨plainSeat, fun gate => ?_, fun gate digest => ?_⟩, ?_⟩
      · exact not_convenes_of_untagged (by decide) gate
      · exact not_clears_of_untagged (by decide) gate digest
      · intro reviewer answer question same gate round digest seats latest _ _
        cases same
        cases gate with
        | plan =>
          cases latest
          exact ⟨0, rfl, rfl⟩
        | delivery => cases latest
    · obtain rfl := mem_singleton.mp member
      exact ⟨seated.1, seated.2⟩

/-- **An answer to another question** flips the verdict of a reviewer who failed the plan. -/
theorem not_gateKept_launch :
    ∃ history, History.play (Docket.happen plainPlatform 0) { now := launchDocket }
      [submitPlan, replyToClerk "FAIL" (some (0, 0)), replyToClerk "PASS" none,
        submitPlan] = some history ∧ Docket.FromCreation plainPlatform 0 history ∧
      ¬ ∀ moment ∈ history.past, Docket.GateKept plainPlatform 0 moment := by
  refine History.exists_play rfl fun history played => ?_
  have isLast := Option.some.inj played
  refine ⟨fromCreation_launch played, fun kept => ?_⟩
  subst isLast
  obtain ⟨round, seats, isRound, verdicts⟩ := (kept _ (mem_of_getElem? (i := 3) rfl)).cleared
    _ _ _ _ _ _ _ rfl rfl (cons_ne_nil _ _)
  cases isRound
  rcases verdicts with passed | ⟨usedUp, -⟩
  · obtain ⟨answer, isLast, isPass⟩ := passed 0 (by decide)
    cases isLast
    exact absurd isPass (by decide)
  · exact absurd usedUp (by decide)

end RedArchKM.Agents
