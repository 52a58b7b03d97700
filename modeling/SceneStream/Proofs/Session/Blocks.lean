import SceneStream.Proofs.Session.InStep

/-! Requests that open or close a block, outside of definitions. One that is accepted has its effect on
the stack of blocks, unless it is taken for a later sample of a motion, or ends a definition that is not
being written down. -/
namespace SceneStream.Session
open SceneStream.Work

theorem enteredModes (m : Mode) (s : Session) : (entered m s).modes = s.modes := by
  cases m <;> rfl

theorem enterBlocks {m : Mode} {s t : Session} (run : (enter m).run s = (.ok (), t)) :
    t.modes.blocks = m :: s.modes.blocks := by
  rw [enterRun] at run
  cases pushed : s.modes.push m with
  | error p =>
    rw [pushed] at run
    cases run
  | ok modes =>
    rw [pushed] at run
    cases run
    rw [enteredModes, (pushedModes pushed).1]

theorem leftModes {m : Mode} {s t : Session} (ok : left m s = .ok t) : t.modes = s.modes := by
  cases m with
  | frame | world | attributes | solid =>
    simp only [left] at ok
    cases popped : s.state.popAttributes with
    | error p =>
      rw [popped] at ok
      cases ok
    | ok state =>
      rw [popped] at ok
      cases ok
      rfl
  | transform =>
    simp only [left] at ok
    cases popped : s.state.popTransform with
    | error p =>
      rw [popped] at ok
      cases ok
    | ok state =>
      rw [popped] at ok
      cases ok
      rfl
  | _ =>
    cases ok
    rfl

theorem leaveBlocks {m : Mode} {s t : Session} (run : (leave m).run s = (.ok (), t)) :
    s.modes.blocks = m :: t.modes.blocks := by
  rw [leaveRun] at run
  cases popped : s.modes.pop m with
  | error p =>
    rw [popped] at run
    cases run
  | ok modes =>
    rw [popped] at run
    dsimp only at run
    cases ends : left m { s with modes } with
    | error p =>
      rw [ends] at run
      cases run
    | ok u =>
      rw [ends] at run
      cases run
      rw [leftModes ends]
      exact poppedModes popped

theorem silentBlocks {α : Type} {m : Run α} {x : Except Problem α} {s t : Session}
    (silent : Silent m s) (run : m.run s = (x, t)) : t.modes.blocks = s.modes.blocks :=
  congrArg Shape.blocks (silentAfter silent run)

theorem solidBlocks {r : Request} {s t : Session} (run : (beginSolid r).run s = (.ok (), t)) :
    t.modes.blocks = .solid :: s.modes.blocks := by
  obtain ⟨operation, u, read, rest⟩ := runOk run
  obtain ⟨-, rfl⟩ := liftOk read
  dsimp only at rest
  split at rest
  · obtain ⟨_, v, entering, told⟩ := runOk rest
    have entered := enterBlocks entering
    split at told
    · rw [silentBlocks (silentReport (by nofun)) told]
      exact entered
    · rw [silentBlocks (silentPure ()) told]
      exact entered
  · obtain ⟨_, v, thrown, -⟩ := runOk rest
    cases thrown

theorem applyOpens {play : Player} {r : Request} {m : Mode} {s t : Session}
    (opened : Mode.openedBy r.kind = some m) (run : (apply play r).run s = (.ok (), t)) :
    t.modes.blocks = m :: s.modes.blocks := by
  unfold apply at run
  split at run
  case h_7 =>
    rw [opened] at run
    exact enterBlocks run
  all_goals
    rename_i kind
    rw [kind] at opened
    cases opened
  · exact solidBlocks run
  · obtain ⟨h, u, read, rest⟩ := runOk run
    obtain ⟨-, rfl⟩ := liftOk read
    obtain ⟨_, v, entering, last⟩ := runOk rest
    have entered := enterBlocks entering
    cases last
    exact entered
  · obtain ⟨name, u, read, rest⟩ := runOk run
    obtain ⟨-, rfl⟩ := liftOk read
    obtain ⟨_, v, entering, last⟩ := runOk rest
    have entered := enterBlocks entering
    cases last
    exact entered

def EndsDefinition (r : Request) : Prop := r.kind = .objectEnd ∨ r.kind = .archiveEnd

theorem applyIdle {play : Player} {r : Request} (idle : EndsDefinition r) : apply play r = pure () := by
  unfold apply
  obtain kind | kind := idle <;> simp only [kind]

theorem applyLeaves {play : Player} {r : Request} {m : Mode} (closed : Mode.closedBy r.kind = some m)
    (inner : m ≠ .context) (other : ¬ EndsDefinition r) : apply play r = leave m := by
  unfold apply
  split
  case h_7 => simp only [closedNotOpened closed, closed]
  all_goals
    rename_i kind
    simp_all [EndsDefinition, Mode.closedBy]

theorem cannotStay {m : Mode} {blocks : List Mode} : blocks ≠ m :: blocks := by
  intro same
  simpa using congrArg List.length same

theorem acceptedRun {play : Player} {s t : Session} {r : Request} (idle : s.recording = none)
    (inner : r.kind ≠ .beginContext) (run : (dispatch play r).run s = (.ok (), t)) :
    (IsLater s r ∧ t.modes = s.modes) ∨
      (¬ IsLater s r ∧ ∃ u, (apply play r).run (sampled s r) = (.ok (), u) ∧ t.modes = u.modes) := by
  have ends := executed play s r
  rw [← dispatchIdle play idle, run] at ends
  cases ends with
  | confirmed confirms => exact absurd confirms.1 inner
  | passed _ _ later => exact .inl ⟨later, rfl⟩
  | applied _ _ now ran => exact .inr ⟨now, _, ran, rfl⟩

theorem acceptedOpens {play : Player} {s t : Session} {r : Request} {m : Mode}
    (idle : s.recording = none) (opened : Mode.openedBy r.kind = some m) (inner : m ≠ .context)
    (run : (dispatch play r).run s = (.ok (), t)) :
    t.modes.blocks = m :: s.modes.blocks ↔ ¬ IsLater s r := by
  obtain ⟨later, same⟩ | ⟨now, u, ran, same⟩ := acceptedRun idle (openedInner opened inner) run
  · rw [same]
    exact iff_of_false cannotStay (fun not => not later)
  · rw [same]
    have pushed := applyOpens opened ran
    exact iff_of_true pushed now

theorem acceptedCloses {play : Player} {s t : Session} {r : Request} {m : Mode}
    (idle : s.recording = none) (closed : Mode.closedBy r.kind = some m) (inner : m ≠ .context)
    (run : (dispatch play r).run s = (.ok (), t)) :
    s.modes.blocks = m :: t.modes.blocks ↔ ¬ IsLater s r ∧ ¬ EndsDefinition r := by
  obtain ⟨later, same⟩ | ⟨now, u, ran, same⟩ := acceptedRun idle (closedInner closed) run
  · rw [same]
    exact iff_of_false cannotStay (fun not => not.1 later)
  · rw [same]
    by_cases ends : EndsDefinition r
    · rw [applyIdle ends] at ran
      cases ran
      exact iff_of_false cannotStay (fun not => not.2 ends)
    · rw [applyLeaves closed inner ends] at ran
      have popped := leaveBlocks ran
      exact iff_of_true popped ⟨now, ends⟩

theorem checkCloses {s : Session} {r : Request} {m : Mode} {rest : List Mode}
    (grounded : Shape.Grounded s.modes.blocks) (top : s.modes.blocks = m :: rest)
    (closed : Mode.closedBy r.kind = some m) : s.check r = .ok () := by
  have allowed : s.modes.allows r.kind = true := by
    unfold ModeStack.allows
    split
    · rename_i none
      exact absurd none (groundedEffective grounded (by simp [top]))
    · rw [if_neg (by simpa using closedInner closed)]
      split
      · rfl
      · simp [closed, ModeStack.top?, top]
  unfold check
  simp [allowed, closedArity closed]

theorem innermostCloses (play : Player) {s : Session} {r : Request} {m : Mode} {rest : List Mode}
    (sound : s.shape.Sound) (inStep : s.shape.InStep) (idle : s.recording = none)
    (top : s.modes.blocks = m :: rest) (inner : m ≠ .context)
    (closed : Mode.closedBy r.kind = some m) : ∃ t, (dispatch play r).run s = (.ok (), t) := by
  have checked := checkCloses sound.grounded top closed
  obtain ⟨passed, applied⟩ := executeRun play (innerActs (closedInner closed)) checked
  by_cases later : IsLater s r
  · exact ⟨_, (dispatchIdle play idle r).trans (passed later)⟩
  · rw [dispatchIdle play idle, applied later]
    by_cases ends : EndsDefinition r
    · rw [applyIdle ends]
      exact ⟨_, rfl⟩
    · rw [applyLeaves closed inner ends, leaveRun]
      rw [show (sampled s r).modes.pop m = _ from popTop top]
      dsimp only
      cases ends : left m { sampled s r with modes := ⟨rest⟩ } with
      | ok t => exact ⟨_, rfl⟩
      | error p =>
        have plain : s.shape.recordsObject = false := by simp [shape, recordsObject, idle]
        have kept := Shape.keptInStep inStep plain top
        obtain ⟨attributes, -, empty⟩ | ⟨-, transform, empty⟩ := leftRefused ends
        · exact absurd empty (kept.1 attributes)
        · exact absurd empty (kept.2 transform)

/-- Outside of definitions, an accepted request that opens a block puts it on top, and one that closes a
block takes it from there, unless it is taken for a later sample of a motion or ends a definition that is
not being written down. Without objects that are open by such an end, the innermost block can always be
ended, and its end takes it away under the same conditions. -/
theorem blocksTakeEffect {options : SessionOptions} {files : Files} {s : Session}
    (reached : Reachable options files s) (idle : s.recording = none) :
    (∀ play r m t, m ≠ .context → Mode.openedBy r.kind = some m →
      (dispatch play r).run s = (.ok (), t) →
      (t.modes.blocks = m :: s.modes.blocks ↔ ¬ IsLater s r)) ∧
    (∀ play r m t, m ≠ .context → Mode.closedBy r.kind = some m →
      (dispatch play r).run s = (.ok (), t) →
      (s.modes.blocks = m :: t.modes.blocks ↔ ¬ IsLater s r ∧ ¬ EndsDefinition r)) ∧
    (s.shape.strays = 0 → ∀ play r m rest, s.modes.blocks = m :: rest → m ≠ .context →
      Mode.closedBy r.kind = some m → ∃ t, (dispatch play r).run s = (.ok (), t) ∧
        (t.modes.blocks = rest ↔ ¬ IsLater s r ∧ ¬ EndsDefinition r)) := by
  refine ⟨fun play r m t inner opened run => acceptedOpens idle opened inner run,
    fun play r m t inner closed run => acceptedCloses idle closed inner run, ?_⟩
  intro none play r m rest top inner closed
  have sound := reachableSound reached
  have inStep := sound.inStep (by simp [Shape.isOpen, shape, top]) none
  obtain ⟨t, run⟩ := innermostCloses play sound inStep idle top inner closed
  refine ⟨t, run, ?_⟩
  rw [← acceptedCloses idle closed inner run, top]
  constructor
  · intro same
    rw [same]
  · intro same
    exact (List.cons.inj same).2.symm

def resourceInMotion : List Request :=
  [⟨.motionBegin, 1, [.of (.integers [0, 1]) true]⟩, ⟨.resourceBegin, 2, []⟩]

theorem blockTakesEffectBefore : ∃ t,
    (dispatch none ⟨.motionEnd, 2, []⟩).run
        ((resourceInMotion.take 1).foldl process (start .default (.bare []))) = (.ok (), t) ∧
      (t.modes.blocks = [.context] ↔
        ¬ IsLater ((resourceInMotion.take 1).foldl process (start .default (.bare [])))
            ⟨.motionEnd, 2, []⟩ ∧ ¬ EndsDefinition ⟨.motionEnd, 2, []⟩) :=
  (blocksTakeEffect (reachableProcess .start (resourceInMotion.take 1)) rfl).2.2 (by decide) none
    ⟨.motionEnd, 2, []⟩ .motion [.context] rfl (by decide) rfl

/-- Its end is acknowledged as a later sample, the block stays open, and the motion cannot end. -/
theorem resourceStaysInMotion :
    let s := resourceInMotion.foldl process (start .default (.bare []))
    let t := process s ⟨.resourceEnd, 3, []⟩
    s.recording = none ∧ s.modes.blocks = [.resource, .motion, .context] ∧
      (dispatch none ⟨.resourceEnd, 3, []⟩).run s = (.ok (), t) ∧ t.modes = s.modes ∧
      (t.check ⟨.motionEnd, 4, []⟩).isOk = false := by
  refine ⟨rfl, rfl, rfl, rfl, rfl⟩

end SceneStream.Session
