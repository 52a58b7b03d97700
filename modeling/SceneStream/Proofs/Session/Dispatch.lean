import SceneStream.Proofs.Session.Moves

/-! Requests as they are carried out or written down. All but those that play others make one move; the
only marked one is an object that begins inside an object. -/
namespace SceneStream.Session
open SceneStream.Work

/-- Taken for one more sample of the open motion, and so passed over. -/
def IsLater (s : Session) (r : Request) : Prop :=
  ∃ n, s.motion = some (n + 1) ∧ r.kind ≠ .motionEnd

/-- Is carried out, as far as that goes, and not written down. -/
def carries (s : Session) (r : Request) : Bool := s.recording.isNone && (s.check r).isOk

theorem carriesChecked {s : Session} {r : Request} :
    s.carries r = true ↔ s.recording = none ∧ s.check r = .ok () := by
  unfold carries
  cases s.check r <;> simp [Except.isOk, Except.toBool]

theorem runOk {α β : Type} {m : Run α} {f : α → Run β} {s t : Session} {b : β}
    (run : (m >>= f).run s = (.ok b, t)) :
    ∃ a u, m.run s = (.ok a, u) ∧ (f a).run u = (.ok b, t) := by
  rw [runBind] at run
  cases first : m.run s with
  | mk x u =>
    rw [first] at run
    cases x with
    | error p => cases run
    | ok a => exact ⟨a, u, rfl, run⟩

theorem liftOk {α : Type} {x : Except Problem α} {s t : Session} {a : α}
    (run : (Run.lift x).run s = (.ok a, t)) : x = .ok a ∧ t = s := by
  obtain ⟨ok, same⟩ := Prod.mk.inj run
  exact ⟨ok, same.symm⟩

def sampled (s : Session) (r : Request) : Session :=
  { s with
    isFresh := false
    motion := if r.kind = .motionEnd then s.motion else s.motion.map (· + 1) }

theorem sampleRun (s : Session) (r : Request) : ∃ later,
    (isLaterSample r).run { s with isFresh := false } = (.ok later, sampled s r) ∧
      (later = true ↔ IsLater s r) := by
  unfold isLaterSample
  simp only [runBind, runGet]
  cases motion : s.motion with
  | none =>
    refine ⟨false, ?_, by simp [IsLater, motion]⟩
    simp [runPure, sampled, motion]
  | some n =>
    by_cases ends : r.kind = .motionEnd
    · refine ⟨false, ?_, by simp [IsLater, ends]⟩
      simp [runPure, sampled, motion, ends]
    · refine ⟨decide (1 ≤ n), ?_, ?_⟩
      · simp only [ends, if_false, runBind, runModify, runPure, sampled, motion]
        rfl
      · cases n <;> simp [IsLater, motion, ends]

def Confirms (s : Session) (r : Request) : Prop := r.kind = .beginContext ∧ s.isFresh = true

theorem innerActs {s : Session} {r : Request} (inner : r.kind ≠ .beginContext) : ¬ Confirms s r :=
  fun both => inner both.1

theorem executeConfirms (play : Player) {s : Session} {r : Request} (confirms : Confirms s r) :
    (execute play r).run s = (.ok (), tell (.done r) { s with isFresh := false }) := by
  obtain ⟨kind, fresh⟩ := confirms
  simp only [execute, runBind, runGet, kind, fresh, and_self, if_true, runModify]
  rfl

theorem executeRefused (play : Player) {s : Session} {r : Request} {p : Problem}
    (acts : ¬ Confirms s r) (refused : s.check r = .error p) :
    (execute play r).run s = (.error p, s) := by
  have acts : ¬ (r.kind = .beginContext ∧ s.isFresh = true) := acts
  simp only [execute, runBind, runGet, acts, if_false, runLift, refused]

theorem executeRun (play : Player) {s : Session} {r : Request} (acts : ¬ Confirms s r)
    (checked : s.check r = .ok ()) :
    (IsLater s r → (execute play r).run s = (.ok (), tell (.done r) (sampled s r))) ∧
    (¬ IsLater s r → (execute play r).run s = match (apply play r).run (sampled s r) with
      | (.ok _, t) => (.ok (), tell (.done r) t)
      | (.error p, t) => (.error p, t)) := by
  have acts : ¬ (r.kind = .beginContext ∧ s.isFresh = true) := acts
  obtain ⟨later, sample, same⟩ := sampleRun s r
  unfold execute
  simp only [runBind, runGet, acts, if_false, runLift, checked, runModify, sample]
  cases later with
  | true => exact ⟨fun _ => rfl, fun other => absurd (same.mp rfl) other⟩
  | false =>
    refine ⟨fun is => absurd (same.mpr is) (by decide), fun _ => ?_⟩
    simp only [Bool.false_eq_true, if_false, runBind]
    cases (apply play r).run (sampled s r) with
    | mk x t => cases x <;> rfl

inductive Executed (play : Player) (s : Session) (r : Request) : Except Problem Unit × Session → Prop where
  | confirmed (confirms : Confirms s r) :
      Executed play s r (.ok (), tell (.done r) { s with isFresh := false })
  | refused {p : Problem} (acts : ¬ Confirms s r) (refused : s.check r = .error p) :
      Executed play s r (.error p, s)
  | passed (acts : ¬ Confirms s r) (checked : s.check r = .ok ()) (later : IsLater s r) :
      Executed play s r (.ok (), tell (.done r) (sampled s r))
  | applied {t : Session} (acts : ¬ Confirms s r) (checked : s.check r = .ok ()) (now : ¬ IsLater s r)
      (run : (apply play r).run (sampled s r) = (.ok (), t)) : Executed play s r (.ok (), tell (.done r) t)
  | failed {p : Problem} {t : Session} (acts : ¬ Confirms s r) (checked : s.check r = .ok ())
      (now : ¬ IsLater s r) (run : (apply play r).run (sampled s r) = (.error p, t)) :
      Executed play s r (.error p, t)

theorem executed (play : Player) (s : Session) (r : Request) :
    Executed play s r ((execute play r).run s) := by
  by_cases acts : Confirms s r
  · rw [executeConfirms play acts]
    exact .confirmed acts
  · cases checked : s.check r with
    | error p =>
      rw [executeRefused play acts checked]
      exact .refused acts checked
    | ok _ =>
      obtain ⟨passed, applied⟩ := executeRun play acts checked
      by_cases later : IsLater s r
      · rw [passed later]
        exact .passed acts checked later
      · rw [applied later]
        cases run : (apply play r).run (sampled s r) with
        | mk x t =>
          cases x with
          | ok _ => exact .applied acts checked later run
          | error p => exact .failed acts checked later run

theorem safeCheckRequest (s : Session) (r : Request) : Outcome.Safe (s.check r) := by
  unfold check
  dsimp only
  split
  · split <;> exact nofun
  · split
    · exact nofun
    · exact trivial

theorem silentLaterSample (r : Request) (s : Session) : Silent (isLaterSample r) s := by
  refine silentGet ?_
  split
  · exact silentPure _
  · split
    · exact silentPure _
    · exact silentBind (silentModify rfl rfl) fun _ t _ => silentPure _

theorem silentDone (r : Request) (s : Session) : Silent (Run.tell (.done r)) s :=
  silentTell fun _ => nofun

theorem movesExecute (play : Player) {r : Request} (direct : plays r.kind = false) {s : Session}
    (plain : s.recordsObject = false) : Moves false (execute play r) s := by
  refine movesGet ?_
  dsimp only
  split
  · exact movesSilent (silentBind (silentModify rfl rfl) fun _ t _ => silentDone r t)
  · refine movesLift (safeCheckRequest s r) fun _ _ => ?_
    refine silentThenMoves (silentModify rfl rfl) fun _ t run => ?_
    cases run
    refine silentThenMoves (silentLaterSample r _) fun later t run => ?_
    have still : t.recordsObject = false :=
      (congrArg Shape.recordsObject (silentAfter (silentLaterSample r _) run)).trans plain
    cases later with
    | true => exact movesSilent (silentDone r t)
    | false => exact movesThenSilent (movesApply play direct still) fun _ u _ => silentDone r u

/-- Opens an object inside the one that is being written down. -/
def nests (s : Session) (r : Request) : Bool :=
  s.recordsObject && r.kind == .objectBegin && (s.check r).isOk

theorem recordsObjectOf {s : Session} {x : Recording} (recording : s.recording = some x) :
    s.recordsObject = match x.target with
      | .object _ => true
      | .archive _ => false := by
  obtain ⟨target, requests, nested⟩ := x
  cases target <;> simp [recordsObject, recording]

def Target.mode : Target → Mode
  | .object _ => .object
  | .archive _ => .archive

def defined (x : Recording) (s : Session) : Session :=
  match x.target with
  | .object h => { s with objects := (h, x.requests.reverse) :: s.objects }
  | .archive name => { s with archives := (name, x.requests.reverse) :: s.archives }

theorem keepRun (x : Recording) (s : Session) :
    (keep x).run s = match s.modes.pop (Target.mode x.target) with
      | .error p => (.error p, { s with recording := none })
      | .ok modes => (.ok (), defined x { s with recording := none, modes }) := by
  obtain ⟨target, requests, nested⟩ := x
  cases target with
  | object h | archive h =>
    simp only [keep, runBind, runModify, leaveRun, Target.mode]
    cases s.modes.pop _ <;> rfl

theorem movesKeep {s : Session} {x : Recording} (recording : s.recording = some x)
    (top : s.recordsObject = true → ∃ rest, s.modes.blocks = .object :: rest) :
    Moves false (keep x) s := by
  have run := keepRun x s
  have records := recordsObjectOf recording
  cases target : x.target with
  | object h =>
    rw [target] at run records
    obtain ⟨rest, top⟩ := top records
    rw [show s.modes.pop (Target.mode (.object h)) = _ from popTop top] at run
    refine movesDone run ?_ ?_
    · simp only [defined, target]
      exact .finish top records
    · simp only [defined, target]
  | archive name =>
    rw [target] at run records
    have idle : ({ s with recording := none } : Session).shape = s.shape := by
      simp only [shape, records]
      rfl
    cases popped : s.modes.pop (Target.mode (.archive name)) with
    | error p =>
      rw [popped] at run
      exact movesRefused run idle rfl (popExpected popped)
    | ok modes =>
      rw [popped] at run
      have move := Shape.Move.leave (x := s.shape) (poppedModes popped) records
        (by simp [Target.mode]) (by simp [Target.mode])
      refine movesDone run ?_ ?_
      · simp only [defined, target]
        rw [show s.shape.recordsObject = false from records] at move
        exact move
      · simp only [defined, target]

theorem checkedAllows {s : Session} {r : Request} (checked : s.check r = .ok ()) :
    s.modes.allows r.kind = true := by
  unfold check at checked
  dsimp only at checked
  split at checked
  · cases checked
  · rename_i allowed
    simpa using allowed

theorem movesRecordArchive {s : Session} {x : Recording} (recording : s.recording = some x)
    (plain : s.recordsObject = false) (r : Request) : Moves false (recordArchive x r) s := by
  have archive : ∃ name, x.target = .archive name := by
    have records := recordsObjectOf recording
    rw [plain] at records
    split at records
    · cases records
    · exact ⟨_, ‹_›⟩
  obtain ⟨name, target⟩ := archive
  have add (n : Nat) : Moves false (modify fun s =>
      { s with recording := some (Recording.add r { x with nested := n }) } : Run Unit) s := by
    have records := recordsObjectOf (s := { s with
      recording := some (Recording.add r { x with nested := n }) }) rfl
    rw [show (Recording.add r { x with nested := n }).target = .archive name from target] at records
    exact movesSilent (silentModify (by simp only [shape, records, plain]) rfl)
  have finish : Moves false (finishRecording x r) s :=
    movesThenSilent (movesKeep recording fun records => by simp [plain] at records)
      fun _ t _ => silentDone r t
  unfold recordArchive
  dsimp only
  split
  · exact add _
  · exact finish
  · exact add _
  · exact add _

def followed (modes : ModeStack) (k : RequestKind) : Except Problem ModeStack :=
  match Mode.openedBy k, Mode.closedBy k with
  | some m, _ => modes.push m
  | none, some m => modes.pop m
  | none, none => .ok modes

theorem followedBlocks {modes after : ModeStack} {k : RequestKind} (allowed : modes.allows k = true)
    (ok : followed modes k = .ok after) :
    (∃ m, Mode.openedBy k = some m ∧ modes.mayOpen m = true ∧ after.blocks = m :: modes.blocks) ∨
      (∃ m, Mode.openedBy k = none ∧ Mode.closedBy k = some m ∧ modes.blocks = m :: after.blocks) ∨
      (Mode.openedBy k = none ∧ after = modes) := by
  unfold followed at ok
  cases opened : Mode.openedBy k with
  | some m =>
    have may := allowedOpen allowed opened
    rw [opened] at ok
    dsimp only at ok
    obtain ⟨rfl, -⟩ := pushedModes ok
    exact .inl ⟨m, rfl, may, rfl⟩
  | none =>
    rw [opened] at ok
    cases closed : Mode.closedBy k with
    | some m =>
      rw [closed] at ok
      exact .inr (.inl ⟨m, rfl, rfl, poppedModes ok⟩)
    | none =>
      rw [closed] at ok
      cases ok
      exact .inr (.inr ⟨rfl, rfl⟩)

theorem followedRefused {modes : ModeStack} {k : RequestKind} {p : Problem}
    (allowed : modes.allows k = true) (refused : followed modes k = .error p) :
    p.Expected ∧ Mode.openedBy k = none := by
  unfold followed at refused
  cases opened : Mode.openedBy k with
  | some m =>
    rw [opened] at refused
    dsimp only at refused
    rw [pushAllowed (allowedOpen allowed opened)] at refused
    cases refused
  | none =>
    rw [opened] at refused
    cases closed : Mode.closedBy k with
    | some m =>
      rw [closed] at refused
      exact ⟨popExpected refused, rfl⟩
    | none =>
      rw [closed] at refused
      cases refused

theorem recordObjectRun (x : Recording) (r : Request) (s : Session) :
    (recordObject x r).run s = match s.check r with
      | .error p => (.error p, s)
      | .ok _ =>
        if r.kind = .objectEnd then (finishRecording x r).run s
        else match followed s.modes r.kind with
          | .error p => (.error p, s)
          | .ok modes => (.ok (), { s with modes, recording := some (x.add r) }) := by
  simp only [recordObject, runBind, runGet, runLift]
  cases s.check r with
  | error p => rfl
  | ok _ =>
    dsimp only
    split
    · rfl
    · simp only [runBind, runGet, runLift]
      unfold followed
      cases Mode.openedBy r.kind with
      | some m =>
        dsimp only
        cases s.modes.push m <;> rfl
      | none =>
        cases Mode.closedBy r.kind with
        | some m =>
          dsimp only
          cases s.modes.pop m <;> rfl
        | none => rfl

theorem movesFollowed {s : Session} {x : Recording} {h : Handle} (recording : s.recording = some x)
    (target : x.target = .object h) {r : Request} {modes : ModeStack} (allowed : s.modes.allows r.kind = true)
    (ends : r.kind ≠ .objectEnd) (next : followed s.modes r.kind = .ok modes) :
    Shape.Move s.shape (r.kind == .objectBegin) ({ s with modes, recording := some (x.add r) } : Session).shape := by
  have records := recordsObjectOf recording
  rw [target] at records
  have still : ({ s with modes, recording := some (x.add r) } : Session).shape =
      { s.shape with blocks := modes.blocks } := by
    have same := recordsObjectOf (s := { s with modes, recording := some (x.add r) }) rfl
    rw [show (x.add r).target = .object h from target] at same
    simp only [shape, same, records]
  rw [still]
  obtain ⟨m, opened, may, blocks⟩ | ⟨m, opens, closed, blocks⟩ | ⟨opens, rfl⟩ := followedBlocks allowed next
  · rw [blocks, begun opened]
    refine .push m records fun member same => ?_
    subst same
    cases mayOpenContext may .object member
  · rw [notBegun opens]
    exact .pop blocks records fun same => ends (closedObject (same ▸ closed))
  · rw [notBegun opens]
    exact .stay

theorem movesRecordObject {s : Session} {x : Recording} {h : Handle}
    (recording : s.recording = some x) (target : x.target = .object h) (r : Request) :
    Moves (nests s r) (recordObject x r) s := by
  have records := recordsObjectOf recording
  rw [target] at records
  have run := recordObjectRun x r s
  cases checked : s.check r with
  | error p =>
    have plain : nests s r = false := by simp [nests, checked, Except.isOk, Except.toBool]
    rw [checked] at run
    rw [plain]
    have expected := safeCheckRequest s r
    rw [checked] at expected
    exact movesRefused run rfl rfl expected
  | ok _ =>
    have allowed := checkedAllows checked
    rw [checked] at run
    dsimp only at run
    by_cases ends : r.kind = .objectEnd
    · have closed : Mode.closedBy r.kind = some .object := by rw [ends]; rfl
      have plain : nests s r = false := by simp [nests, ends]
      rw [if_pos ends] at run
      rw [plain]
      have finish : Moves false (finishRecording x r) s :=
        movesThenSilent (movesKeep recording fun _ => allowedClose allowed closed (by decide))
          fun _ t _ => silentDone r t
      exact movesRun run finish.move finish.told finish.raised
    · rw [if_neg ends] at run
      have marked : nests s r = (r.kind == .objectBegin) := by
        simp [nests, checked, records, Except.isOk, Except.toBool]
      cases next : followed s.modes r.kind with
      | error p =>
        rw [next] at run
        obtain ⟨expected, opens⟩ := followedRefused allowed next
        rw [marked, notBegun opens]
        exact movesRefused run rfl rfl expected
      | ok modes =>
        rw [next] at run
        exact movesDone run (marked ▸ movesFollowed recording target allowed ends next) rfl

theorem nestsPlain {s : Session} (plain : s.recordsObject = false) (r : Request) :
    nests s r = false := by
  simp [nests, plain]

theorem movesDispatch (play : Player) {r : Request} {s : Session}
    (direct : s.recording = none → plays r.kind = false) : Moves (nests s r) (dispatch play r) s := by
  refine movesGet ?_
  cases recording : s.recording with
  | none =>
    have plain : s.recordsObject = false := by simp [recordsObject, recording]
    rw [nestsPlain plain]
    exact movesExecute play (direct recording) plain
  | some x =>
    have records := recordsObjectOf recording
    dsimp only
    split
    · rename_i name target
      rw [target] at records
      rw [nestsPlain records]
      exact movesRecordArchive recording records r
    · rename_i h target
      exact movesRecordObject recording target r

theorem stepAt (n : Nat) : ∃ play, processAt n = step play := by
  cases n with
  | zero => exact ⟨none, rfl⟩
  | succ n => exact ⟨some (processAt n), rfl⟩

theorem processAtStep (s : Session) (r : Request) : ∃ play, s.process r = step play s r := by
  obtain ⟨play, same⟩ := stepAt (s.options.maxDepth - s.depth)
  exact ⟨play, by rw [process, same]⟩

theorem stepDone {play : Player} {s t : Session} {r : Request} (going : s.aborted = false)
    (run : (dispatch play r).run s = (.ok (), t)) : step play s r = t := by
  unfold step
  rw [going, run]
  rfl

theorem stepFailed {play : Player} {s t : Session} {r : Request} {p : Problem}
    (going : s.aborted = false) (run : (dispatch play r).run s = (.error p, t)) :
    step play s r = t.fail (p.atLine r.line) := by
  unfold step
  rw [going, run]
  rfl

theorem dispatchIdle (play : Player) {s : Session} (idle : s.recording = none) (r : Request) :
    (dispatch play r).run s = (execute play r).run s := by
  simp only [dispatch, runBind, runGet, idle]

theorem stepExecutes (play : Player) {s : Session} (going : s.aborted = false) (idle : s.recording = none)
    (r : Request) : step play s r = match (execute play r).run s with
      | (.ok _, t) => t
      | (.error p, t) => t.fail (p.atLine r.line) := by
  unfold step
  rw [going, dispatchIdle play idle]
  cases (execute play r).run s with
  | mk x t => cases x <;> rfl

end SceneStream.Session
