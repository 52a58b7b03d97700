import SceneStream.Proofs.Session.Seat
import SceneStream.Proofs.Session.Tidy

/-! Contexts one after the other. A context finds everything as in a new session, unless the one before it
was ended inside a motion: that motion is still open then, takes the beginning for one more sample, and no
context begins any more. -/
namespace SceneStream.Session
open SceneStream.Work

/-- A session is fresh in nothing but the context that was opened by itself. -/
def Early (s : Session) : Prop :=
  s.isFresh = true → s.modes.blocks = [.context] ∧ s.recording = none

theorem executeEarly (play : Player) {r : Request} (direct : plays r.kind = false) {s : Session}
    (early : Early s) : Early ((execute play r).run s).2 := by
  have placed := placedApply play direct (sampled s r)
  have run := executed play s r
  generalize (execute play r).run s = ran at run
  cases run with
  | confirmed => exact nofun
  | refused => exact early
  | passed => exact nofun
  | applied _ _ _ run | failed _ _ _ run =>
    rw [run] at placed
    exact fun fresh => nomatch (congrArg Prod.snd placed).symm.trans fresh

theorem earlyInvariant : Invariant Early where
  alike early alike fresh := by
    rw [alike.modes, alike.recording]
    exact early (alike.fresh fresh)
  direct play {s r} direct early := by
    cases recording : s.recording with
    | none =>
      rw [dispatchIdle play recording]
      exact executeEarly play (direct recording) early
    | some x =>
      intro fresh
      have still : s.isFresh = true := (congrArg Prod.snd (placedRecording play recording r)).symm.trans fresh
      have idle := (early still).2
      rw [recording] at idle
      cases idle

theorem reachableEarly {options : SessionOptions} {files : Files} {s : Session}
    (reached : Reachable options files s) : Early s :=
  reachableKeeps earlyInvariant (fun _ => ⟨rfl, rfl⟩) reached

structure Closed (s : Session) : Prop where
  blocks : s.modes.blocks = []
  idle : s.recording = none
  stale : s.isFresh = false

theorem reachableClosed {options : SessionOptions} {files : Files} {s : Session}
    (reached : Reachable options files s) (closed : s.modes.blocks = []) : Closed s := by
  refine ⟨closed, ?_, ?_⟩
  · cases recording : s.recording with
    | none => rfl
    | some x =>
      cases target : x.target with
      | object h =>
        have records := recordsObjectOf recording
        rw [target] at records
        have inside : .object ∈ s.modes.blocks := (reachableSound reached).recorded records
        rw [closed] at inside
        cases inside
      | archive name =>
        obtain ⟨rest, top⟩ := (reachableTidy reached).archive x name recording target
        cases closed.symm.trans top
  · cases fresh : s.isFresh with
    | false => rfl
    | true => cases closed.symm.trans (reachableEarly reached fresh).1

/-- A new session, but for where the old one stands and what it has told. -/
def renewed (s : Session) (r : Request) : Session :=
  { start s.options s.files with
    depth := s.depth, stream := s.stream, worst := s.worst, errorMode := s.errorMode, crashed := s.crashed
    isFresh := false, notices := .done r :: s.notices }

theorem closedChecks {s : Session} (closed : Closed s) {r : Request} (begins : r.kind = .beginContext) :
    s.check r = .ok () := by
  have outside : s.modes.effective? = none := by simp [ModeStack.effective?, closed.blocks]
  simp [check, ModeStack.allows, outside, begins, RequestKind.arity, RequestKind.row]

theorem closedRefuses {s : Session} (closed : Closed s) {r : Request} (other : r.kind ≠ .beginContext) :
    ∃ p, s.check r = .error p := by
  have outside : s.modes.effective? = none := by simp [ModeStack.effective?, closed.blocks]
  simp [check, ModeStack.allows, outside, other]

theorem closedRun (play : Player) {s : Session} (closed : Closed s) (going : s.aborted = false)
    {r : Request} (begins : r.kind = .beginContext) (now : ¬ IsLater s r) :
    step play s r = s.renewed r := by
  obtain ⟨blocks, idle, stale⟩ := closed
  have acts : ¬ Confirms s r := fun ⟨_, fresh⟩ => absurd stale (ne_false_of_eq_true fresh)
  have run := (executeRun play acts (closedChecks ⟨blocks, idle, stale⟩ begins)).2 now
  have pushed : s.modes.push .context = .ok ⟨[.context]⟩ := by
    have may : s.modes.mayOpen .context = true := by simp [ModeStack.mayOpen, ModeStack.effective?, blocks]
    rw [pushAllowed may, blocks]
  have applied : (apply play r).run (sampled s r) =
      (.ok (), reset { sampled s r with modes := ⟨[.context]⟩ }) := by
    simp only [apply, begins, Mode.openedBy, enterRun]
    rw [show (sampled s r).modes = s.modes from rfl, pushed]
    rfl
  rw [applied] at run
  rw [stepDone going ((dispatchIdle play idle r).trans run)]
  simp only [renewed, start, tell, reset, sampled, idle, going]

structure Stuck (s : Session) : Prop where
  closed : Closed s
  motion : ∃ n, s.motion = some (n + 1)

theorem failStuck {s : Session} (stuck : Stuck s) (p : Problem) : Stuck (s.fail p) := by
  obtain ⟨⟨blocks, idle, stale⟩, n, motion⟩ := stuck
  unfold fail report
  dsimp only
  split
  · exact ⟨⟨blocks, idle, stale⟩, n, motion⟩
  · split <;> exact ⟨⟨blocks, idle, stale⟩, n, motion⟩

theorem stuckStep (play : Player) {s : Session} (stuck : Stuck s) (r : Request) :
    Stuck (step play s r) := by
  cases going : s.aborted with
  | true =>
    simp only [step, going, if_true]
    exact stuck
  | false =>
    have still := stuck
    obtain ⟨closed, n, motion⟩ := stuck
    rw [stepExecutes play going closed.idle]
    have taken (checked : s.check r = .ok ()) : IsLater s r := by
      refine ⟨n, motion, fun ends => ?_⟩
      obtain ⟨p, refused⟩ := closedRefuses closed (r := r) (by rw [ends]; decide)
      cases checked.symm.trans refused
    have run := executed play s r
    generalize (execute play r).run s = ran at run
    cases run with
    | confirmed confirms => exact absurd closed.stale (ne_false_of_eq_true confirms.2)
    | refused => exact failStuck still _
    | passed _ _ later =>
      obtain ⟨_, _, inner⟩ := later
      exact ⟨⟨closed.blocks, closed.idle, rfl⟩, n + 1, by simp [tell, sampled, inner, motion]⟩
    | applied _ checked now => exact absurd (taken checked) now
    | failed _ checked now => exact absurd (taken checked) now

theorem stuckRun {s : Session} (stuck : Stuck s) (rs : List Request) : Stuck (rs.foldl process s) := by
  induction rs generalizing s with
  | nil => exact stuck
  | cons r rs ih =>
    obtain ⟨play, same⟩ := processAtStep s r
    exact ih (same ▸ stuckStep play stuck r)

theorem endContextRun (s : Session) : ∃ t, endContext.run s = (.ok (), t) ∧ t.motion = s.motion := by
  simp only [endContext, runBind, runGet, runModify]
  split
  · refine ⟨_, rfl, ?_⟩
    unfold report
    dsimp only
    split <;> rfl
  · exact ⟨_, rfl, rfl⟩

theorem stepModes (play : Player) {s : Session} (going : s.aborted = false) (r : Request) :
    (step play s r).modes = ((dispatch play r).run s).2.modes := by
  unfold step
  rw [going]
  cases (dispatch play r).run s with
  | mk x t =>
    cases x with
    | ok _ => rfl
    | error p => exact (alikeFail t _).modes

theorem recordedOpen {options : SessionOptions} {files : Files} {s : Session}
    (reached : Reachable options files s) (isOpen : s.modes.blocks ≠ []) {x : Recording}
    (recording : s.recording = some x) (play : Player) {r : Request} (ends : r.kind = .endContext) :
    ((dispatch play r).run s).2.modes.blocks ≠ [] := by
  simp only [dispatch, runBind, runGet, recording]
  split
  · simp only [recordArchive, ends]
    exact isOpen
  · rename_i h target
    rw [recordObjectRun]
    cases s.check r with
    | error p => exact isOpen
    | ok _ =>
      simp only [ends, reduceCtorEq, if_false]
      cases popped : followed s.modes .endContext with
      | error p => exact isOpen
      | ok modes =>
        have sound := reachableSound reached
        have top : s.modes.blocks = .context :: modes.blocks := poppedModes popped
        have grounded : Shape.Grounded s.modes.blocks := sound.grounded
        have split : s.modes.blocks = [] ++ .context :: modes.blocks := top
        have bottom : modes.blocks = [] := ModeStack.groundedBottom grounded split
        have records := recordsObjectOf recording
        rw [target] at records
        have inside : .object ∈ s.modes.blocks := sound.recorded records
        rw [top, bottom] at inside
        cases inside with
        | tail _ inside => cases inside

theorem endLeaves {options : SessionOptions} {files : Files} {s : Session}
    (reached : Reachable options files s) (isOpen : s.modes.blocks ≠ []) {r : Request}
    (ends : r.kind = .endContext) (closed : (s.process r).modes.blocks = []) :
    (s.process r).motion = s.motion.map (· + 1) := by
  obtain ⟨play, same⟩ := processAtStep s r
  rw [same] at closed ⊢
  cases going : s.aborted with
  | true =>
    simp only [step, going, if_true] at closed
    exact absurd closed isOpen
  | false =>
    cases recording : s.recording with
    | some x =>
      rw [stepModes play going] at closed
      exact absurd closed (recordedOpen reached isOpen recording play ends)
    | none =>
      rw [stepExecutes play going recording] at closed ⊢
      have run := executed play s r
      generalize (execute play r).run s = ran at run closed
      cases run with
      | confirmed confirms => exact absurd (ends.symm.trans confirms.1) (by decide)
      | refused =>
        rw [(alikeFail s _).modes] at closed
        exact absurd closed isOpen
      | passed => exact absurd closed isOpen
      | applied _ _ _ run =>
        obtain ⟨t, ended, motion⟩ := endContextRun (sampled s r)
        simp only [apply, ends] at run
        cases run.symm.trans ended
        simpa [tell, sampled, ends] using motion
      | failed _ _ _ run =>
        obtain ⟨t, ended, -⟩ := endContextRun (sampled s r)
        simp only [apply, ends] at run
        cases run.symm.trans ended

/-- Where a context has ended, the next one begins as in a new session with the same options, unless its
beginning is taken for a sample of a motion; then no context begins any more, whatever is asked. That is so
exactly if the one before was ended inside a motion. -/
theorem contextBeginsAnew {options : SessionOptions} {files : Files} {s : Session}
    (reached : Reachable options files s) (closed : s.modes.blocks = []) (going : s.aborted = false)
    {r : Request} (begins : r.kind = .beginContext) :
    (¬ IsLater s r → s.process r = s.renewed r) ∧
    (IsLater s r → ∀ rs : List Request, (rs.foldl process s).modes.blocks = []) ∧
    ∀ t e, Reachable options files t → t.modes.blocks ≠ [] → e.kind = .endContext → t.process e = s →
      (IsLater s r ↔ t.motion ≠ none) := by
  have done := reachableClosed reached closed
  refine ⟨fun now => ?_, fun later rs => ?_, fun t e before isOpen ends same => ?_⟩
  · obtain ⟨play, same⟩ := processAtStep s r
    rw [same, closedRun play done going begins now]
  · obtain ⟨n, motion, -⟩ := later
    exact (stuckRun ⟨done, n, motion⟩ rs).closed.blocks
  · subst same
    have left := endLeaves before isOpen ends closed
    cases motion : t.motion with
    | none =>
      rw [motion] at left
      simp [IsLater, left]
    | some n =>
      rw [motion] at left
      simp [IsLater, left, begins]

def contextEnded (first : Request) : Session :=
  [first, ⟨.endContext, 2, []⟩].foldl process (start .default (.bare []))

theorem worldEndedBeginsAnew :
    (contextEnded ⟨.worldBegin, 1, []⟩).modes.blocks = [] ∧
    (contextEnded ⟨.worldBegin, 1, []⟩).process ⟨.beginContext, 3, []⟩ =
      (contextEnded ⟨.worldBegin, 1, []⟩).renewed ⟨.beginContext, 3, []⟩ := by
  have reached : Reachable .default (.bare []) (contextEnded ⟨.worldBegin, 1, []⟩) :=
    reachableProcess .start [_, _]
  refine ⟨rfl, (contextBeginsAnew reached rfl rfl rfl).1 ?_⟩
  rintro ⟨n, motion, -⟩
  cases motion

/-- The beginning is acknowledged, and no context is open. -/
theorem motionEndedBeginsNone :
    let s := contextEnded ⟨.motionBegin, 1, [.of (.integers [0, 1]) true]⟩
    let t := s.process ⟨.beginContext, 3, []⟩
    s.modes.blocks = [] ∧ s.aborted = false ∧ t.modes.blocks = [] ∧ t.motion = some 2 := by
  refine ⟨rfl, rfl, rfl, rfl⟩

end SceneStream.Session
