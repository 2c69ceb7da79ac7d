import RedArchKM.Workflow.Steps

/-!
# Everything the engine does is a chain of its steps

An advance, a pass, a drive, a sweep and every other action continue the world by steps of the
engine (`execute_steps`). For the drives this goes by induction on the levels of calls, together
with the frame that makes it work: a drive changes its own run and runs created on the way.
-/

namespace RedArchKM.Workflow

open Lib Lib.History List

/-- The runs a drive of the run may change: itself and those not created yet. -/
def Owns (runId : RunId) (db : Db) (other : RunId) : Prop := other = runId ∨ db.runs.length ≤ other

/-- A continuation by steps of the engine that changes the run and new runs only. -/
structure Sound (host : Host) (runId : RunId) (world world' : World) : Prop where
  steps : Continues host world world'
  touches : Touches (Owns runId world.now) world.now world'.now

namespace Sound

variable {host : Host} {runId : RunId} {first second third : World}

theorem refl (world : World) : Sound host runId world world := ⟨.refl _, .refl _⟩

theorem trans (left : Sound host runId first second) (right : Sound host runId second third) :
    Sound host runId first third where
  steps := left.steps.trans right.steps
  touches := left.touches.trans (right.touches.mono fun _ owned =>
    owned.imp id (left.touches.length_le.trans ·))

theorem step {world : World} {event : Event} {next : Db}
    (step : EngineStep host world.now event next)
    (touches : Touches (Owns runId world.now) world.now next) :
    Sound host runId world (world.step event next) := ⟨.single world step, touches⟩

end Sound

def DriveSound (host : Host) (drive : World → RunId → Except String World) : Prop :=
  ∀ world runId world', drive world runId = .ok world' → Sound host runId world world'

section Advance

variable {host : Host} {drive : World → RunId → Except String World}

variable {db : Db} {t : TokenId}

variable {status : TokenStatus} {world' : World}

theorem exists_of_hasStatus (has : hasStatus db status t) :
    ∃ run token, db.runs[t.run]? = some run ∧ run.tokens[t.index]? = some token ∧
      token.status = status := by
  unfold hasStatus Db.token? at has
  cases found : db.runs[t.run]? with
  | none => simp [found] at has
  | some run =>
    cases placed : run.tokens[t.index]? with
    | none => simp [found, placed] at has
    | some token => exact ⟨run, token, rfl, placed, by simpa [found, placed] using has⟩

def KeepsSiblingsIdle (t : TokenId) (db db' : Db) : Prop :=
  ∀ u : TokenId, u.run = t.run → u ≠ t → IsIdle db u → IsIdle db' u

theorem keepsSiblingsIdle_of_run {db' : Db} {run : Run} (found : db.runs[t.run]? = some run)
    (keeps : ∀ index, t.index ≠ index → IdleAt run.tokens index →
      ∃ run', db'.runs[t.run]? = some run' ∧ IdleAt run'.tokens index) :
    KeepsSiblingsIdle t db db' := by
  intro u sameRun other idle
  have foundU : db.runs[u.run]? = some run := by rw [sameRun, found]
  have elsewhere : t.index ≠ u.index := fun same => other (by
    rcases u with ⟨_, _⟩
    rcases t with ⟨_, _⟩
    simp_all)
  obtain ⟨run', found', idle'⟩ := keeps u.index elsewhere ((isIdle_iff foundU).mp idle)
  exact (isIdle_iff (by rw [sameRun, found'])).mpr idle'

theorem running_of_stirred {run run' : Run} {index : Nat} {token : Token}
    (stirred : Stirred run run') (placed : run.tokens[index]? = some token)
    (running : token.status = .running) : run'.tokens[index]? = some token := by
  obtain ⟨token', placed', woken⟩ := stirred.tokens.token index token placed
  have awake : ¬ token.onChild := fun parked => absurd (running.symm.trans parked.1) nofun
  rwa [woken.eq awake] at placed'

theorem Site.At.stirred {db db' : Db} {site : Site} {own : RunId → Prop} (located : site.At db)
    (running : site.token.status = .running) (touches : Touches own db db')
    (other : ¬ own site.t.run) :
    ∃ run', Stirred site.run run' ∧ Site.At { site with run := run' } db' := by
  obtain ⟨run', found, stirred⟩ := touches.stirred other located.run
  obtain ⟨version, versioned, model⟩ := located.version
  refine ⟨run', stirred, found, running_of_stirred stirred located.token running, ⟨version, ?_,
    model⟩, located.node⟩
  rw [touches.versions]
  have same : run'.versionId = site.run.versionId := stirred.kept.versionId
  rwa [same]

/-- **One advance**: a chain of steps that changes the token's run and new runs only, and leaves
the token's idle siblings idle. -/
theorem advanceOne_sound (drives : DriveSound host drive) {world : World}
    (running : hasStatus world.now .running t)
    (advanced : advanceOne host drive world t = .ok world') :
    Sound host t.run world world' ∧ KeepsSiblingsIdle t world.now world'.now := by
  obtain ⟨run, token, found, placed, isRunning⟩ := exists_of_hasStatus running
  have tokenFound : world.now.token? t = some token := by
    rwa [Db.token?, found]
  have owned : Owns t.run world.now t.run := .inl rfl
  have stranded : ∀ index, t.index ≠ index → IdleAt run.tokens index →
      IdleAt (run.tokens.modify t.index (Token.withStatus .dead)) index :=
    fun index other idle => idle.modify other _
  simp only [advanceOne, found, tokenFound] at advanced
  cases versioned : world.now.versions[run.versionId]? with
  | none =>
    simp only [versioned] at advanced
    cases advanced
    refine ⟨.step (.unversioned found running versioned)
      ((touches_failRun owned).trans (touches_modifyToken owned)),
      keepsSiblingsIdle_of_run found fun index other idle => ?_⟩
    have holds : HoldsTokens world.now t.run run.tokens := ⟨run, found, .refl _⟩
    obtain ⟨run', found', wakes⟩ : HoldsTokens
      (failRun world.now t.run "workflow version missing") t.run run.tokens := holds.failRun
    exact ⟨_, run_modifyToken found' _, (idle.wakes wakes).modify other _⟩
  | some version =>
    simp only [versioned] at advanced
    cases located : (normalize version.definition).nodeById token.nodeId with
    | none =>
      simp only [located] at advanced
      cases advanced
      refine ⟨.step (.misplaced found placed isRunning versioned located)
        ((touches_modifyToken owned).trans (touches_settleRun owned)),
        keepsSiblingsIdle_of_run found fun index other idle => ?_⟩
      have holds : HoldsTokens (world.now.modifyToken t (Token.withStatus .dead)) t.run _ :=
        ⟨_, run_modifyToken found _, .refl _⟩
      obtain ⟨run', found', wakes⟩ := holds.settleRun
      exact ⟨run', found', (idle.modify other _).wakes wakes⟩
    | some node =>
      simp only [located] at advanced
      have isAt : Site.At ⟨t, token, run, normalize version.definition, node⟩ world.now :=
        ⟨found, placed, ⟨version, versioned, rfl⟩, located⟩
      generalize siteIs : (⟨t, token, run, normalize version.definition, node⟩ : Site) = site
        at advanced isAt
      have sameT : site.t = t := by rw [← siteIs]
      have sameRun : site.run = run := by rw [← siteIs]
      have siteRunning : site.token.status = .running := by rw [← siteIs]; exact isRunning
      subst sameT
      cases dispatched : dispatch host world.now site with
      | error message =>
        rw [dispatched] at advanced
        cases advanced
      | ok result =>
        rw [dispatched] at advanced
        rcases dispatch_cases dispatched with
          ⟨db, outcome, rfl, how⟩ | ⟨db, childId, rfl, starts⟩
        · cases advanced
          refine ⟨.step (.advanced isAt siteRunning dispatched)
            ((how.touches owned).trans (touches_conclude owned)),
            keepsSiblingsIdle_of_run found fun index other idle => ?_⟩
          obtain ⟨run', found', idle'⟩ := idle.dispatched how found other
          exact idleAt_conclude found' idle' other outcome
        · -- The frame of the child's drive keeps the calling token's run as it was.
          cases driven : drive (world.step (.called site.t childId) db) childId with
          | error message =>
            simp only [driven, bind, Except.bind] at advanced
            cases advanced
          | ok between =>
            simp only [driven, bind, Except.bind] at advanced
            cases advanced
            have inside := drives _ _ _ driven
            have calls : EngineStep host world.now (.called site.t childId) db :=
              .called isAt siteRunning dispatched
            have older : Touches (fun runId => world.now.runs.length ≤ runId) world.now
                between.now :=
              starts.touches.trans (inside.touches.mono fun runId owned' =>
                owned'.elim (fun same => same ▸ starts.fresh.ge) (starts.length_lt.le.trans ·))
            have notNew : ¬ world.now.runs.length ≤ site.t.run :=
              not_le.mpr (List.getElem?_eq_some_iff.mp found).1
            obtain ⟨run', stirred, isAt'⟩ := isAt.stirred siteRunning older notNew
            obtain ⟨child, foundChild, callerIs⟩ := starts.caller
            obtain ⟨child', foundChild', same, -⟩ :=
              inside.touches.runs childId child foundChild
            have returns : EngineStep host between.now
                (.returned site.t (finishCall between.now site childId).2)
                (conclude (finishCall between.now site childId).1 site
                  (finishCall between.now site childId).2) :=
              @EngineStep.returned host between.now { site with run := run' } childId isAt'
                siteRunning starts.isCall starts.notCompleted
                ⟨child', foundChild', same.parentToken.trans callerIs⟩
            have books : Books site between.now (finishCall between.now site childId).1 :=
              ordinary_finishCall.books
            refine ⟨⟨((Steps.single world calls).trans inside.steps).tail returns, ?_⟩,
              keepsSiblingsIdle_of_run found fun index other idle => ?_⟩
            · exact (older.mono fun _ => .inr).trans
                ((books.touches owned).trans (touches_conclude owned))
            · obtain ⟨run'', found'', same, -⟩ := books.run isAt'.run
              refine idleAt_conclude found'' ?_ other _
              rw [same.tokens]
              exact (sameRun ▸ idle).wakes stirred.tokens

/-! ## Passes and drives -/

theorem token?_modifyToken (db : Db) (t u : TokenId) (change : Token → Token) :
    (db.modifyToken t change).token? u =
      if t = u then (db.token? u).map change else db.token? u := by
  rw [Db.token?, Db.modifyToken, runs_modifyRun, Db.token?]
  rcases t with ⟨runId, index⟩
  rcases u with ⟨other, place⟩
  by_cases sameRun : runId = other
  · subst sameRun
    cases db.runs[runId]? with
    | none => simp
    | some run => by_cases same : index = place <;> simp [same]
  · simp [sameRun]

theorem hasStatus_modifyToken_ne {u : TokenId} (other : t ≠ u) (change : Token → Token)
    (status : TokenStatus) :
    hasStatus (db.modifyToken t change) status u = hasStatus db status u := by
  rw [hasStatus, token?_modifyToken, if_neg other, hasStatus]

theorem hasStatus_modifyToken_self {token : Token} (found : db.token? t = some token)
    {change : Token → Token} (becomes : (change token).status = status) :
    hasStatus (db.modifyToken t change) status t := by
  rw [hasStatus, token?_modifyToken, if_pos rfl, found]
  simpa using becomes

theorem token?_of_hasStatus (has : hasStatus db status t) :
    ∃ token, db.token? t = some token ∧ token.status = status := by
  obtain ⟨run, token, found, placed, isStatus⟩ := exists_of_hasStatus has
  exact ⟨token, by rw [Db.token?, found]; exact placed, isStatus⟩

theorem IsIdle.token? (idle : IsIdle db t) : ∃ token, db.token? t = some token := by
  rcases idle with active | dead
  · obtain ⟨token, found, -⟩ := token?_of_hasStatus active
    exact ⟨token, found⟩
  · obtain ⟨token, found, -⟩ := token?_of_hasStatus dead
    exact ⟨token, found⟩

variable {held : List TokenId}

/-- **A pass** over distinct idle tokens of the run; those that the session holds as active are idle
in the end. -/
theorem drivePass_sound (drives : DriveSound host drive) {runId : RunId} {listed : List TokenId}
    {world : World} (distinct : listed.Nodup) (ofRun : ∀ t ∈ listed, t.run = runId)
    (idle : ∀ t ∈ listed, IsIdle world.now t)
    (passed : drivePass (advanceOne host drive) listed world = .ok (world', held)) :
    Sound host runId world world' ∧ (∀ t ∈ held, IsIdle world'.now t) ∧
      ∀ u : TokenId, u.run = runId → u ∉ listed → IsIdle world.now u → IsIdle world'.now u := by
  induction listed generalizing world held with
  | nil =>
    cases passed
    exact ⟨.refl _, fun _ none => absurd none not_mem_nil, fun _ _ _ idle => idle⟩
  | cons t rest ih =>
    have isIdle : IsIdle world.now t := idle t mem_cons_self
    obtain rfl : t.run = runId := ofRun t mem_cons_self
    obtain ⟨token, found⟩ := isIdle.token?
    obtain ⟨fresh, distinct⟩ := nodup_cons.mp distinct
    simp only [drivePass] at passed
    cases advanced : advanceOne host drive (world.step (.taken t)
        (world.now.modifyToken t (Token.withStatus .running))) t with
    | error message =>
      rw [advanced] at passed
      cases passed
    | ok between =>
      rw [advanced] at passed
      simp only [bind, Except.bind] at passed
      have takes : Sound host t.run world (world.step (.taken t)
          (world.now.modifyToken t (Token.withStatus .running))) :=
        .step (.taken isIdle) (touches_modifyToken (.inl rfl))
      obtain ⟨moves, keeps⟩ :=
        advanceOne_sound drives (hasStatus_modifyToken_self found rfl) advanced
      have others : ∀ u : TokenId, u.run = t.run → t ≠ u → IsIdle world.now u →
          IsIdle between.now u := by
        intro u sameRun other before
        refine keeps u sameRun other.symm ?_
        rwa [IsIdle, now_step, hasStatus_modifyToken_ne other, hasStatus_modifyToken_ne other]
      split at passed
      · cases passed
      · rename_i result later
        cases passed
        obtain ⟨passes, heldIdle, spared⟩ := ih distinct
          (fun u member => ofRun u (mem_cons_of_mem _ member))
          (fun u member => others u (ofRun u (mem_cons_of_mem _ member))
            (fun same => fresh (same ▸ member)) (idle u (mem_cons_of_mem _ member))) later
        refine ⟨(takes.trans moves).trans passes, fun u member => ?_,
          fun u sameRun unlisted before => ?_⟩
        · split at member
          · rename_i active
            rcases mem_cons.mp member with rfl | isHeld
            · exact spared u rfl fresh (.inl active)
            · exact heldIdle u isHeld
          · exact heldIdle u member
        · obtain ⟨other, unlisted⟩ := not_or.mp (mt mem_cons.mpr unlisted)
          exact spared u sameRun unlisted (others u sameRun (Ne.symm other) before)

theorem mem_activeTokens {runId : RunId} (member : t ∈ activeTokens db runId held) :
    t.run = runId ∧ (hasStatus db .active t ∨ t ∈ held) := by
  obtain ⟨listed, active⟩ := mem_filter.mp member
  obtain ⟨index, -, rfl⟩ := mem_map.mp listed
  exact ⟨rfl, by simpa using active⟩

theorem nodup_activeTokens (db : Db) (runId : RunId) (held : List TokenId) :
    (activeTokens db runId held).Nodup :=
  (nodup_range.map fun _ _ same => (TokenId.mk.inj same).2).filter _

theorem drivePasses_sound (drives : DriveSound host drive) {runId : RunId} {passes : Nat}
    {world : World} (heldIdle : ∀ t ∈ held, IsIdle world.now t)
    (driven : drivePasses (advanceOne host drive) runId passes held world = .ok world') :
    Sound host runId world world' := by
  induction passes generalizing world held with
  | zero =>
    obtain rfl := Except.ok.inj driven
    exact .refl world
  | succ passes ih =>
    unfold drivePasses at driven
    split at driven
    · obtain rfl := Except.ok.inj driven
      exact .refl world
    · cases passed : drivePass (advanceOne host drive) (activeTokens world.now runId held) world with
      | error message =>
        rw [passed] at driven
        cases driven
      | ok result =>
        rw [passed] at driven
        obtain ⟨sound, idle, -⟩ := drivePass_sound drives (nodup_activeTokens ..)
          (fun t member => (mem_activeTokens member).1)
          (fun t member => (mem_activeTokens member).2.elim .inl (heldIdle t)) passed
        exact sound.trans (ih idle driven)

end Advance

/-- **A drive**, by induction on the levels of calls. -/
theorem driveRun_sound (host : Host) (levels : Nat) : DriveSound host (driveRun host levels) := by
  induction levels with
  | zero =>
    intro world runId world' driven
    refine drivePasses_sound ?_ (fun _ none => absurd none not_mem_nil) driven
    intro world runId world' same
    cases same
    exact .refl world
  | succ levels ih =>
    intro world runId world' driven
    exact drivePasses_sound ih (fun _ none => absurd none not_mem_nil) driven

section Actions

variable {host : Host}

theorem drive_steps (world : World) (runId : RunId) :
    Continues host world (drive host world runId) := by
  unfold drive
  split
  · rename_i driven result
    exact (driveRun_sound host _ _ _ _ result).steps
  · exact .refl world

/-! ## The sweep -/

theorem hasStatus_running_of_touches {own : RunId → Prop} {db db' : Db} {t : TokenId}
    (touches : Touches own db db') (other : ¬ own t.run) (running : hasStatus db .running t) :
    hasStatus db' .running t := by
  obtain ⟨run, token, found, placed, isRunning⟩ := exists_of_hasStatus running
  obtain ⟨run', found', stirred⟩ := touches.stirred other found
  have placed' : run'.tokens[t.index]? = some token :=
    running_of_stirred stirred placed isRunning
  simp [hasStatus, Db.token?, found', placed', isRunning]

theorem claimTokens_steps {claimed : List TokenId} {world : World} (distinct : claimed.Nodup)
    (active : ∀ t ∈ claimed, hasStatus world.now .active t) :
    Continues host world (claimTokens claimed world) ∧
      ∀ t, t ∈ claimed ∨ hasStatus world.now .running t →
        hasStatus (claimTokens claimed world).now .running t := by
  induction claimed generalizing world with
  | nil => exact ⟨.refl world, fun t either => either.resolve_left not_mem_nil⟩
  | cons t rest ih =>
    have isActive : hasStatus world.now .active t := active t mem_cons_self
    obtain ⟨token, found, -⟩ := token?_of_hasStatus isActive
    have leased : hasStatus (world.now.modifyToken t (Token.lease world.now.now)) .running t :=
      hasStatus_modifyToken_self found rfl
    have elsewhere : ∀ u, t ≠ u → ∀ status,
        hasStatus (world.now.modifyToken t (Token.lease world.now.now)) status u =
          hasStatus world.now status u :=
      fun u other status => hasStatus_modifyToken_ne other _ status
    have stillActive : ∀ u ∈ rest, hasStatus (world.step (.claimed t)
        (world.now.modifyToken t (Token.lease world.now.now))).now .active u := by
      intro u member
      have other : t ≠ u := fun same => (nodup_cons.mp distinct).1 (same ▸ member)
      rw [now_step, elsewhere u other]
      exact active u (mem_cons_of_mem _ member)
    have continued := ih (nodup_cons.mp distinct).2 stillActive
    refine ⟨(Steps.single world (.claimed isActive)).trans continued.1, fun u either => ?_⟩
    refine continued.2 u ?_
    by_cases same : t = u
    · exact .inr (same ▸ leased)
    · rw [now_step, elsewhere u same]
      rcases either with member | running
      · exact .inl ((mem_cons.mp member).resolve_left (Ne.symm same))
      · exact .inr running

theorem site_of_raised {drive : World → RunId → Except String World} {world : World} {t : TokenId}
    {error : String} (raised : advanceOne host drive world t = .error error) :
    ∃ site : Site, site.At world.now ∧ site.t = t := by
  unfold advanceOne at raised
  split at raised
  · rename_i run token foundRun foundToken
    split at raised
    · cases raised
    · rename_i version versioned
      dsimp only at raised
      split at raised
      · cases raised
      · rename_i node located
        rw [Db.token?, foundRun] at foundToken
        exact ⟨⟨t, token, run, normalize version.definition, node⟩,
          ⟨foundRun, foundToken, ⟨version, versioned, rfl⟩, located⟩, rfl⟩
  · cases raised

theorem advanceClaimed_steps {locked : List RunId} {claimed : List TokenId} {world : World}
    (distinct : claimed.Nodup)
    (held : ∀ t ∈ claimed, t.run ∈ locked → hasStatus world.now .running t) :
    Continues host world (advanceClaimed host locked claimed world) := by
  induction claimed generalizing world with
  | nil => exact .refl world
  | cons t rest ih =>
    have fresh : ∀ u ∈ rest, t ≠ u := fun u member same =>
      (nodup_cons.mp distinct).1 (same ▸ member)
    have later : ∀ u ∈ rest, u.run ∈ locked → hasStatus world.now .running u :=
      fun u member => held u (mem_cons_of_mem _ member)
    have onward := fun (between : World)
        (held : ∀ u ∈ rest, u.run ∈ locked → hasStatus between.now .running u) =>
      ih (nodup_cons.mp distinct).2 held
    unfold advanceClaimed
    split
    · rename_i isLocked
      refine (Steps.single world (.released (held t mem_cons_self isLocked))).trans
        (onward _ fun u member uLocked => ?_)
      rw [now_step, hasStatus_modifyToken_ne (fresh u member)]
      exact later u member uLocked
    · rename_i unlocked
      split
      · exact onward _ later
      · rename_i isRunning
        have running : hasStatus world.now .running t := by simpa using isRunning
        have untouched : ∀ between : World,
            Touches (Owns t.run world.now) world.now between.now →
            ∀ u ∈ rest, u.run ∈ locked → hasStatus between.now .running u := by
          intro between touches u member uLocked
          refine hasStatus_running_of_touches touches (fun owned => ?_) (later u member uLocked)
          obtain ⟨run, token, found, -⟩ := exists_of_hasStatus (later u member uLocked)
          rcases owned with same | beyond
          · exact unlocked (same ▸ uLocked)
          · exact absurd (List.getElem?_eq_some_iff.mp found).1 (not_lt.mpr beyond)
        split
        · rename_i between advanced
          obtain ⟨moves, -⟩ := advanceOne_sound (driveRun_sound host _) running advanced
          exact moves.steps.trans (onward _ (untouched _ moves.touches))
        · rename_i raised
          exact (Steps.single world (.killed running (site_of_raised raised))).trans
            (onward _ (untouched _ (touches_killToken (.inl rfl))))

theorem advanceTokens_steps (world : World) (chosen : List TokenId) (locked : List RunId) :
    Continues host world (advanceTokens host chosen locked world) := by
  have distinct : (chosen.dedup.filter (hasStatus world.now .active)).Nodup :=
    chosen.nodup_dedup.filter _
  have active : ∀ t ∈ chosen.dedup.filter (hasStatus world.now .active),
      hasStatus world.now .active t := fun t member => (mem_filter.mp member).2
  obtain ⟨claims, running⟩ := claimTokens_steps distinct active
  exact claims.trans (advanceClaimed_steps distinct fun t member _ => running t (.inl member))

/-! ## Wake-ups and starts -/

theorem resumeDueTokens_steps (chosen : List TokenId) (world : World) :
    Continues host world (resumeDueTokens chosen world) := by
  induction chosen generalizing world with
  | nil => exact .refl world
  | cons t rest ih =>
    unfold resumeDueTokens
    split
    · rename_i due
      exact (Steps.single world (.resumed due)).trans (ih _)
    · exact ih world

section

variable (world : World)

include world

theorem signalToken_steps (runId : RunId) (nodeId : Option NodeId)
    (correlationKey : Option AgentRunId) (vars output : Fields) :
    Continues host world (signalToken world runId nodeId correlationKey vars output) := by
  unfold signalToken
  split
  · exact .refl world
  · rename_i t target
    exact .single world (.signaled target)

theorem resumeTokenForRun_steps (t : TokenId) (agentRunId : AgentRunId) (agentRun : AgentRun) :
    Continues host world (resumeTokenForRun world t agentRunId agentRun) := by
  unfold resumeTokenForRun
  split
  · rename_i parked
    exact .single world (.wiredBack parked)
  · exact .refl world

theorem finishAgentRun_steps (agentRunId : AgentRunId) (status : AgentRunStatus) (output : Fields)
    (error : Option String) :
    Continues host world (finishAgentRun world agentRunId status output error) := by
  unfold finishAgentRun
  split
  · exact .refl world
  · split
    · exact .refl world
    · exact (Steps.single world (.agentEnded _)).trans (resumeTokenForRun_steps ..)

theorem reconcileAgentToken_steps (t : TokenId) :
    Continues host world (reconcileAgentToken world t) := by
  unfold reconcileAgentToken
  split
  · exact .refl world
  · split
    · exact .refl world
    · split
      · exact resumeTokenForRun_steps ..
      · exact .refl world

theorem launchRun_steps (launch : Launch) : Continues host world (launchRun world launch) := by
  unfold launchRun
  split
  · exact .refl world
  · rename_i version found
    exact .single world (.launched found)

theorem retryRun_steps (runId : RunId) : Continues host world (retryRun host world runId) := by
  simp only [retryRun]
  split
  · rename_i retryable
    split
    · rename_i driven result
      exact (Steps.single world (.retried retryable.2)).trans
        (driveRun_sound host _ _ _ _ result).steps
    · exact .refl world
  · exact .refl world

theorem perform_steps (action : Action) : Continues host world (perform host world action) := by
  cases action with
  | launch launch => exact launchRun_steps world launch
  | drive runId => exact drive_steps world runId
  | sweep chosen locked => exact advanceTokens_steps world chosen locked
  | resumeDue chosen => exact resumeDueTokens_steps chosen world
  | signal runId nodeId correlationKey vars output => exact signalToken_steps ..
  | finishAgent agentRunId status output error => exact finishAgentRun_steps ..
  | cancelAgent agentRunId reason => exact .single world (.agentEnded _)
  | reconcile t => exact reconcileAgentToken_steps world t
  | retry runId => exact retryRun_steps world runId
  | tick elapsed => exact .single world (.ticked _)

end

/-- **The engine only ever makes steps of the engine.** -/
theorem execute_steps (host : Host) (db : Db) (actions : List Action) :
    Continues host { now := db } (execute host db actions) := by
  have fromWorld : ∀ world : World, Continues host world (actions.foldl (perform host) world) := by
    induction actions with
    | nil => exact fun world => .refl world
    | cons action rest ih => exact fun world => (perform_steps world action).trans (ih _)
  exact fromWorld _

end Actions

end RedArchKM.Workflow
