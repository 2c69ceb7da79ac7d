import RedArchKM.Agents.ReviewGate
import RedArchKM.Lib.Infixes

/-!
# The review's lines, written and read back

A line that the review writes reads back as what it says, and as nothing else: a convening is of
its gate, with its fingerprint and its seats; a verdict is its reviewer's; a clearing line is for
its gate and its submission. The names in these lines have to be plain.
-/

namespace RedArchKM.Agents

open List

open Lib (infix_tagged_iff)

/-! ## Plain names -/

/-- A name of letters, digits, `_` and `-`. -/
structure Plain (name : String) : Prop where
  nonempty : name.toList ≠ []
  chars : ∀ c ∈ name.toList, isNameChar c

variable {c : Char}

theorem Plain.not_mem {name : String} (plain : Plain name) (other : isNameChar c = false) :
    c ∉ name.toList := by
  intro member
  rw [plain.chars c member] at other
  cases other

theorem isAlpha_eq (c : Char) :
    c.isAlpha = (decide (c.val ≥ 'A'.val ∧ c.val ≤ 'Z'.val) || (c.val ≥ 'a'.val && c.val ≤ 'z'.val)) := rfl

theorem code_of_isNameChar (named : isNameChar c) :
    c.val.toNat = 45 ∨ 48 ≤ c.val.toNat ∧ c.val.toNat ≤ 122 := by
  have digits : '0'.val.toNat = 48 ∧ '9'.val.toNat = 57 := ⟨rfl, rfl⟩
  have upper : 'A'.val.toNat = 65 ∧ 'Z'.val.toNat = 90 := ⟨rfl, rfl⟩
  have lower : 'a'.val.toNat = 97 ∧ 'z'.val.toNat = 122 := ⟨rfl, rfl⟩
  simp only [isNameChar, Char.isAlphanum, isAlpha_eq, Char.isDigit, Bool.or_eq_true,
    Bool.and_eq_true, decide_eq_true_eq, UInt32.le_iff_toNat_le, ge_iff_le] at named
  rcases named with (((isUpper | isLower) | isDigit) | rfl) | rfl
  · omega
  · omega
  · omega
  · exact .inr (by decide)
  · exact .inl rfl

theorem not_isSpace_of_isNameChar (named : isNameChar c) : isSpace c = false := by
  have code := code_of_isNameChar named
  simp only [isSpace, UInt32.le_iff_toNat_le, ← UInt32.toNat_inj, Bool.or_eq_false_iff,
    Bool.and_eq_false_iff, decide_eq_false_iff_not, UInt32.reduceToNat]
  omega

theorem isNameChar_of_isHexDigit (hex : isHexDigit c) : isNameChar c := by
  simp only [isHexDigit, Bool.or_eq_true, Bool.and_eq_true, decide_eq_true_eq] at hex
  simp only [isNameChar, Char.isAlphanum, isAlpha_eq, Bool.or_eq_true]
  rcases hex with digit | ⟨low, high⟩
  · exact .inl (.inl (.inr digit))
  · refine .inl (.inl (.inl (.inr ?_)))
    have upTo : c.val ≤ 'z'.val := UInt32.le_trans high (by decide)
    simp only [ge_iff_le, Bool.and_eq_true, decide_eq_true_eq]
    exact ⟨low, upTo⟩

theorem Digest.not_mem (digest : Digest) (other : isNameChar c = false) :
    c ∉ digest.text.toList := by
  intro member
  rw [isNameChar_of_isHexDigit (digest.hex c member)] at other
  cases other

theorem mem_intercalate {α : Type*} {separator : List α} {words : List (List α)} {a : α}
    (member : a ∈ separator.intercalate words) : a ∈ separator ∨ ∃ word ∈ words, a ∈ word := by
  induction words with
  | nil => cases member
  | cons word rest ih =>
    cases rest with
    | nil => exact .inr ⟨word, mem_singleton.mpr rfl, by simpa using member⟩
    | cons next rest =>
      rw [intercalate_cons_cons, mem_append, mem_append] at member
      rcases member with (here | between) | later
      · exact .inr ⟨word, mem_cons_self, here⟩
      · exact .inl between
      · exact (ih later).imp_right fun ⟨word, listed, inWord⟩ =>
          ⟨word, mem_cons_of_mem _ listed, inWord⟩

theorem not_mem_names {names : List String} (plain : ∀ name ∈ names, Plain name)
    (other : isNameChar c = false) (separator : c ∉ ", ".toList) :
    c ∉ (", ".intercalate names).toList := by
  rw [String.toList_intercalate]
  intro member
  rcases mem_intercalate member with between | ⟨word, listed, inWord⟩
  · exact separator between
  · obtain ⟨name, inNames, rfl⟩ := mem_map.mp listed
    exact (plain name inNames).not_mem other inWord

/-! ## The lines -/

def reviewLine (rest : Text) : Text := "🏛️ ".toList ++ '[' :: '[' :: ("REVIEW".toList ++ rest)

/-- What a reader looks for, from the tag on. -/
def reviewNeedle (suffix : Text) : Text := '[' :: '[' :: ("REVIEW".toList ++ suffix)

theorem contains_reviewLine {suffix rest : Text} (clean : '[' ∉ rest) :
    contains (reviewNeedle suffix) (reviewLine rest) ↔ suffix <+: rest :=
  contains_iff.trans (infix_tagged_iff (by decide) (by decide) clean)

def lineRest (kind : String) (gate : Gate) (digest : Digest) (note : String) : Text :=
  kind.toList ++ (gate.name.toList ++ (" (".toList ++ (digest.text.toList ++
    (") — ".toList ++ note.toList))))

theorem toList_conveneMarker (gate : Gate) (digest : Digest) (seats : List Seat) :
    (conveneMarker gate digest seats).toList =
      reviewLine (lineRest "-CONVENED]] " gate digest (", ".intercalate (seats.map Seat.agent))) := by
  simp [conveneMarker, convenedTag, reviewLine, lineRest, String.toList_append]

def clearingKind (approved : Bool) : String := if approved then "-PASSED]] " else "-RELEASED]] "

def clearingTag (approved : Bool) : String := if approved then passedTag else releasedTag

theorem toList_clearedMarker (approved : Bool) (gate : Gate) (digest : Digest) (note : String) :
    (clearedMarker (clearingTag approved) gate digest note).toList =
      reviewLine (lineRest (clearingKind approved) gate digest note) := by
  cases approved <;> simp [clearedMarker, clearingTag, clearingKind, passedTag, releasedTag,
    reviewLine, lineRest, String.toList_append]

theorem clean_lineRest {kind note : String} (cleanKind : '[' ∉ kind.toList)
    (cleanNote : '[' ∉ note.toList) (gate : Gate) (digest : Digest) :
    '[' ∉ lineRest kind gate digest note := by
  have cleanGate : '[' ∉ gate.name.toList := by cases gate <;> decide
  have cleanDigest : '[' ∉ digest.text.toList := digest.not_mem (by decide)
  simp only [lineRest, mem_append, not_or]
  exact ⟨cleanKind, cleanGate, by decide, cleanDigest, by decide, cleanNote⟩

section Needles

variable {gate gate' : Gate} {digest digest' : Digest} {note : String}

theorem gate_prefix_iff (gate gate' : Gate) (rest rest' : Text) :
    gate'.name.toList ++ ' ' :: rest' <+: gate.name.toList ++ ' ' :: rest ↔
      gate' = gate ∧ rest' <+: rest := by
  cases gate <;> cases gate' <;> simp [Gate.name]

theorem convenes_of_lineRest {kind : String} {text : String}
    (written : text.toList = reviewLine (lineRest kind gate digest note))
    (cleanKind : '[' ∉ kind.toList) (cleanNote : '[' ∉ note.toList) :
    convenes gate' text ↔
      "-CONVENED]] ".toList ++ (gate'.name.toList ++ [' ']) <+: lineRest kind gate digest note := by
  have isNeedle : (convenedTag ++ " " ++ gate'.name ++ " ").toList =
      reviewNeedle ("-CONVENED]] ".toList ++ (gate'.name.toList ++ [' '])) := by
    simp [convenedTag, reviewNeedle, String.toList_append]
  rw [convenes, isNeedle, written]
  exact contains_reviewLine (clean_lineRest cleanKind cleanNote gate digest)

theorem convenes_conveneMarker {seats : List Seat} (plain : ∀ seat ∈ seats, Plain seat.agent) :
    convenes gate' (conveneMarker gate digest seats) ↔ gate' = gate := by
  have cleanNames : '[' ∉ (", ".intercalate (seats.map Seat.agent)).toList :=
    not_mem_names (by simpa using plain) (by decide) (by decide)
  rw [convenes_of_lineRest (toList_conveneMarker gate digest seats) (by decide) cleanNames,
    lineRest, prefix_append_right_inj]
  have same := gate_prefix_iff gate gate' ('(' :: (digest.text.toList ++
      (") — ".toList ++ (", ".intercalate (seats.map Seat.agent)).toList))) []
  simpa using same

theorem not_convenes_clearedMarker (approved : Bool) (cleanNote : '[' ∉ note.toList) :
    convenes gate' (clearedMarker (clearingTag approved) gate digest note) = false := by
  apply Bool.eq_false_iff.mpr
  intro found
  rw [convenes_of_lineRest (toList_clearedMarker approved gate digest note)
    (by cases approved <;> decide) cleanNote] at found
  cases approved <;> simp [lineRest, clearingKind] at found

theorem cleared_iff_prefix (gate' : Gate) (digest' : Digest) {text : String} {rest : Text} (written : text.toList = reviewLine rest)
    (clean : '[' ∉ rest) (approved : Bool) :
    contains (clearingTag approved ++ " " ++ gate'.name ++ " (" ++ digest'.text ++ ")").toList
        text.toList ↔
      (clearingKind approved).toList ++ (gate'.name.toList ++ (" (".toList ++
        (digest'.text.toList ++ [')']))) <+: rest := by
  have isNeedle : (clearingTag approved ++ " " ++ gate'.name ++ " (" ++ digest'.text ++ ")").toList =
      reviewNeedle ((clearingKind approved).toList ++ (gate'.name.toList ++ (" (".toList ++
        (digest'.text.toList ++ [')'])))) := by
    cases approved <;> simp [clearingTag, clearingKind, passedTag, releasedTag, reviewNeedle,
      String.toList_append]
  rw [isNeedle, written]
  exact contains_reviewLine clean

theorem digest_prefix_iff {rest rest' : Text} :
    digest'.text.toList ++ rest' <+: digest.text.toList ++ rest ↔ digest' = digest ∧ rest' <+: rest := by
  constructor
  · intro found
    obtain ⟨later, same⟩ := found
    rw [append_assoc] at same
    obtain ⟨sameDigits, sameRest⟩ := append_inj same (by rw [digest.length_eq, digest'.length_eq])
    refine ⟨?_, later, sameRest⟩
    exact Digest.mk.injEq .. |>.mpr (String.toList_inj.mp sameDigits)
  · rintro ⟨rfl, later⟩
    exact prefix_append_right_inj _ |>.mpr later

def clears (gate : Gate) (digest : Digest) (text : String) : Bool :=
  contains (clearingTag true ++ " " ++ gate.name ++ " (" ++ digest.text ++ ")").toList text.toList ||
    contains (clearingTag false ++ " " ++ gate.name ++ " (" ++ digest.text ++ ")").toList text.toList

theorem hasPassed_eq (texts : List String) (gate : Gate) (digest : Digest) :
    hasPassed texts gate digest = texts.any (clears gate digest) := rfl

theorem clears_clearedMarker (approved : Bool) (cleanNote : '[' ∉ note.toList) :
    clears gate' digest' (clearedMarker (clearingTag approved) gate digest note) ↔
      gate' = gate ∧ digest' = digest := by
  have written := toList_clearedMarker approved gate digest note
  have clean : '[' ∉ lineRest (clearingKind approved) gate digest note :=
    clean_lineRest (by cases approved <;> decide) cleanNote gate digest
  have passed := cleared_iff_prefix gate' digest' written clean true
  have released := cleared_iff_prefix gate' digest' written clean false
  have same := gate_prefix_iff gate gate'
    ('(' :: (digest.text.toList ++ (") — ".toList ++ note.toList)))
    ('(' :: (digest'.text.toList ++ [')']))
  rw [cons_prefix_cons, digest_prefix_iff] at same
  rw [clears, Bool.or_eq_true, passed, released]
  cases approved
  · simpa [lineRest, clearingKind] using same
  · simpa [lineRest, clearingKind] using same

theorem not_clears_conveneMarker {seats : List Seat} (plain : ∀ seat ∈ seats, Plain seat.agent) :
    clears gate' digest' (conveneMarker gate digest seats) = false := by
  have cleanNames : '[' ∉ (", ".intercalate (seats.map Seat.agent)).toList :=
    not_mem_names (by simpa using plain) (by decide) (by decide)
  have written := toList_conveneMarker gate digest seats
  have clean := clean_lineRest (by decide : '[' ∉ "-CONVENED]] ".toList) cleanNames gate digest
  have passed := cleared_iff_prefix gate' digest' written clean true
  have released := cleared_iff_prefix gate' digest' written clean false
  apply Bool.eq_false_iff.mpr
  rw [clears, ne_eq, Bool.or_eq_true, passed, released]
  simp [lineRest, clearingKind]

theorem not_convenes_of_untagged {text : String}
    (untagged : contains convenedTag.toList text.toList = false) (gate : Gate) :
    convenes gate text = false := by
  apply Bool.eq_false_iff.mpr
  intro found
  rw [← Bool.not_eq_true, contains_iff] at untagged
  refine untagged (List.IsInfix.trans ?_ (contains_iff.mp found))
  rw [String.toList_append, String.toList_append, String.toList_append, append_assoc, append_assoc]
  exact infix_append_left

theorem not_clears_of_untagged {text : String}
    (untagged : ∀ approved, contains (clearingTag approved).toList text.toList = false)
    (gate : Gate) (digest : Digest) : clears gate digest text = false := by
  have missing : ∀ approved,
      contains (clearingTag approved ++ " " ++ gate.name ++ " (" ++ digest.text ++ ")").toList
        text.toList = false := by
    intro approved
    apply Bool.eq_false_iff.mpr
    intro found
    have untaggedHere := untagged approved
    rw [← Bool.not_eq_true, contains_iff] at untaggedHere
    refine untaggedHere (List.IsInfix.trans ?_ (contains_iff.mp found))
    simp only [String.toList_append, append_assoc]
    exact infix_append_left
  rw [clears, missing, missing]
  rfl

end Needles

/-! ## What a convening says -/

theorem digestIn_append {before digits rest : Text} (clean : '(' ∉ before)
    (length : digits.length = 16) (hex : ∀ c ∈ digits, isHexDigit c) :
    digestIn (before ++ '(' :: (digits ++ ')' :: rest)) = some digits := by
  induction before with
  | nil =>
    have taken : (digits ++ ')' :: rest).take 16 = digits := by rw [← length, take_left]
    have dropped : (digits ++ ')' :: rest).drop 16 = ')' :: rest := by
      rw [← length, drop_left]
    rw [nil_append, digestIn, taken, dropped]
    simp [length, all_eq_true.mpr hex]
  | cons c before ih =>
    rw [mem_cons, not_or] at clean
    have other : c ≠ '(' := fun same => clean.1 same.symm
    rw [cons_append, digestIn]
    simp only [other, decide_false, Bool.false_and, Bool.false_eq_true, if_false]
    exact ih clean.2

/-- **The fingerprint of a convening reads back.** -/
theorem digestIn_conveneMarker (gate : Gate) (digest : Digest) (seats : List Seat) :
    digestIn (conveneMarker gate digest seats).toList = some digest.text.toList := by
  have split : (conveneMarker gate digest seats).toList =
      ("🏛️ [[REVIEW-CONVENED]] ".toList ++ (gate.name.toList ++ [' '])) ++
        '(' :: (digest.text.toList ++
          ')' :: (" — ".toList ++ (", ".intercalate (seats.map Seat.agent)).toList)) := by
    simp [toList_conveneMarker, reviewLine, lineRest]
  rw [split]
  exact digestIn_append (by cases gate <;> decide) digest.length_eq digest.hex

theorem strip_name {name : Text} (nonempty : name ≠ []) (chars : ∀ c ∈ name, isNameChar c) :
    strip (' ' :: name) = name := by
  have kept : ∀ {text : Text}, text ≠ [] → (∀ c ∈ text, isNameChar c) →
      text.dropWhile isSpace = text := by
    intro text some named
    cases text with
    | nil => rfl
    | cons c rest =>
      simp [not_isSpace_of_isNameChar (named c mem_cons_self)]
  have first : (' ' :: name).dropWhile isSpace = name := by
    rw [dropWhile_cons_of_pos (by decide), kept nonempty chars]
  rw [strip, first, kept (by simpa using nonempty) (by simpa using chars), reverse_reverse]

theorem cons_intercalate {words : List Text} (some : words ≠ []) :
    ' ' :: ", ".toList.intercalate words = [','].intercalate (words.map (' ' :: ·)) := by
  induction words with
  | nil => exact absurd rfl some
  | cons word rest ih =>
    cases rest with
    | nil => simp
    | cons next rest =>
      have later := ih (cons_ne_nil _ _)
      rw [map_cons] at later
      rw [intercalate_cons_cons, map_cons, map_cons, intercalate_cons_cons, ← later]
      simp

/-- **The seats of a convening read back.** -/
theorem seatsIn_conveneMarker {gate : Gate} {digest : Digest} {seats : List Seat}
    (plain : ∀ seat ∈ seats, Plain seat.agent) (seated : seats ≠ []) :
    seatsIn (conveneMarker gate digest seats).toList = seats.map Seat.agent := by
  have split : (conveneMarker gate digest seats).toList =
      ("🏛️ [[REVIEW-CONVENED]] ".toList ++ (gate.name.toList ++ (" (".toList ++
        (digest.text.toList ++ ") ".toList)))) ++
        '—' :: ' ' :: ", ".toList.intercalate ((seats.map Seat.agent).map String.toList) := by
    simp [toList_conveneMarker, reviewLine, lineRest, String.toList_intercalate]
  have clean : '—' ∉ "🏛️ [[REVIEW-CONVENED]] ".toList ++ (gate.name.toList ++ (" (".toList ++
      (digest.text.toList ++ ") ".toList))) := by
    have cleanGate : '—' ∉ gate.name.toList := by cases gate <;> decide
    have cleanDigest : '—' ∉ digest.text.toList := digest.not_mem (by decide)
    simp only [mem_append, not_or]
    exact ⟨by decide, cleanGate, by decide, cleanDigest, by decide⟩
  have dropped : ∀ {before rest : Text}, '—' ∉ before →
      ((before ++ '—' :: rest).dropWhile (· ≠ '—')).drop 1 = rest := by
    intro before rest clean
    have other : ∀ c ∈ before, decide (c ≠ '—') = true := by
      intro c member
      apply decide_eq_true
      rintro rfl
      exact clean member
    rw [dropWhile_append_of_pos other]
    simp
  rw [seatsIn, split, dropped clean, cons_intercalate (by simpa using seated), splitOn_intercalate]
  · have read : ∀ seat ∈ seats, String.ofList (strip (' ' :: seat.agent.toList)) = seat.agent := by
      intro seat member
      rw [strip_name (plain seat member).nonempty (plain seat member).chars, String.ofList_toList]
    have names : ((((seats.map Seat.agent).map String.toList).map (' ' :: ·)).map fun name =>
        String.ofList (strip name)) = seats.map Seat.agent := by
      simp only [map_map]
      exact map_congr_left read
    rw [names, filter_eq_self]
    intro name listed
    obtain ⟨seat, member, rfl⟩ := mem_map.mp listed
    have nonempty := (plain seat member).nonempty
    rw [Bool.not_eq_true', String.isEmpty_eq_false_iff]
    intro same
    exact nonempty (by rw [same]; rfl)
  · intro word listed
    simp only [mem_map] at listed
    obtain ⟨_, ⟨_, ⟨seat, member, rfl⟩, rfl⟩, rfl⟩ := listed
    rw [mem_cons, not_or]
    exact ⟨by decide, (plain seat member).not_mem (by decide)⟩
  · simpa using seated

/-! ## What files a verdict -/

theorem filedVerdict_of_lineRest {letter : Char → Bool} {kind note : String} {gate : Gate}
    {digest : Digest} {text : String} (written : text.toList = reviewLine (lineRest kind gate digest note))
    (cleanKind : '[' ∉ kind.toList) (cleanNote : '[' ∉ note.toList)
    (dashed : kind.toList.head? = some '-') : filedVerdict letter text = none := by
  have isNeedle : verdictTag.toList = reviewNeedle "]]".toList := by decide
  have missing : contains verdictTag.toList text.toList = false := by
    apply Bool.eq_false_iff.mpr
    rw [isNeedle, written, ne_eq,
      contains_reviewLine (clean_lineRest cleanKind cleanNote gate digest), lineRest]
    obtain ⟨rest, isKind⟩ : ∃ rest, kind.toList = '-' :: rest := by
      cases listed : kind.toList with
      | nil => simp [listed] at dashed
      | cons c rest => exact ⟨rest, by simpa [listed] using dashed⟩
    rw [isKind]
    simp
  rw [filedVerdict, missing]
  rfl

theorem verdictIn_skip {letter : Char → Bool} {before : Option Char} {rest : Text}
    (noPass : c ≠ 'P') (noFail : c ≠ 'F') :
    verdictIn letter before (c :: rest) = verdictIn letter (some c) rest := by
  have nothing : verdictAt (c :: rest) = none := by
    unfold verdictAt
    split
    · rename_i same
      exact absurd (List.cons.inj same).1 noPass
    · rename_i same
      exact absurd (List.cons.inj same).1 noFail
    · rfl
  rw [verdictIn, nothing, ite_self]

theorem reviewerIn_name {reviewer : String} (plain : Plain reviewer) (note : Text) :
    verdictAt.reviewerIn (' ' :: 'b' :: 'y' :: ' ' :: (reviewer.toList ++ ':' :: note)) =
      some reviewer := by
  obtain ⟨c, rest, isName⟩ := exists_cons_of_ne_nil plain.nonempty
  have taken : (reviewer.toList ++ ':' :: note).takeWhile isNameChar = reviewer.toList := by
    rw [takeWhile_append_of_pos plain.chars]
    simp [isNameChar, show ':'.isAlphanum = false from rfl]
  have noSpace : isSpace c = false :=
    not_isSpace_of_isNameChar (plain.chars c (isName ▸ mem_cons_self))
  have spaces : (' ' :: (reviewer.toList ++ ':' :: note)).span isSpace =
      ([' '], reviewer.toList ++ ':' :: note) := by
    rw [isName, span_eq_takeWhile_dropWhile]
    simp [noSpace, show isSpace ' ' = true from rfl]
  have outer : (' ' :: 'b' :: 'y' :: ' ' :: (reviewer.toList ++ ':' :: note)).span isSpace =
      ([' '], 'b' :: 'y' :: ' ' :: (reviewer.toList ++ ':' :: note)) := rfl
  simp only [verdictAt.reviewerIn, outer, spaces]
  rw [taken, isName]
  dsimp only
  rw [← isName, String.ofList_toList]

/-- **A verdict reads back, under its reviewer's name.** -/
theorem filedVerdict_verdictMarker {letter : Char → Bool} {reviewer : String} (plain : Plain reviewer)
    (verdict : Verdict) (note : String) :
    filedVerdict letter (verdictMarker reviewer verdict note) = some (verdict, reviewer) := by
  have written : (verdictMarker reviewer verdict note).toList =
      "🏛️ [[REVIEW]] ".toList ++ (verdict.name.toList ++
        ' ' :: 'b' :: 'y' :: ' ' :: (reviewer.toList ++ ':' :: ' ' :: note.toList)) := by
    simp [verdictMarker, verdictTag, String.toList_append]
  have tagged : contains verdictTag.toList (verdictMarker reviewer verdict note).toList := by
    rw [contains_iff, written]
    exact ⟨"🏛️ ".toList, ' ' :: (verdict.name.toList ++
      ' ' :: 'b' :: 'y' :: ' ' :: (reviewer.toList ++ ':' :: ' ' :: note.toList)), by
        simp [verdictTag]⟩
  have boundary : isBoundary letter (some ' ') = true := rfl
  rw [filedVerdict, tagged, written, if_pos rfl]
  have opening : "🏛️ [[REVIEW]] ".toList =
      ['🏛', '\uFE0F', ' ', '[', '[', 'R', 'E', 'V', 'I', 'E', 'W', ']', ']', ' '] := by decide
  rw [opening]
  simp only [cons_append, nil_append]
  iterate 14 rw [verdictIn_skip (by decide) (by decide)]
  cases verdict with
  | pass =>
    rw [show Verdict.pass.name.toList = ['P', 'A', 'S', 'S'] from rfl]
    simp only [cons_append, nil_append]
    rw [verdictIn, boundary, if_pos rfl, verdictAt, reviewerIn_name plain]
    rfl
  | fail =>
    rw [show Verdict.fail.name.toList = ['F', 'A', 'I', 'L'] from rfl]
    simp only [cons_append, nil_append]
    rw [verdictIn, boundary, if_pos rfl, verdictAt, reviewerIn_name plain]
    rfl

end RedArchKM.Agents
