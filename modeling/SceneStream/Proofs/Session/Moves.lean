import SceneStream.Proofs.Mode.Stack
import SceneStream.Proofs.Session.Silent

/-! Every request moves the shape of a session in one of the ways that are listed there, unless it plays
other requests. Where both stacks are in step, none finds one of them empty. -/
namespace SceneStream.Session
open SceneStream.Work

theorem runLift {α : Type} (x : Except Problem α) (s : Session) : (Run.lift x).run s = (x, s) := rfl

theorem enterRun (m : Mode) (s : Session) : (enter m).run s = match s.modes.push m with
    | .error p => (.error p, s)
    | .ok modes => (.ok (), entered m { s with modes }) := by
  simp only [enter, runBind, runGet, runLift]
  cases s.modes.push m <;> rfl

def left (m : Mode) (s : Session) : Except Problem Session :=
  match m with
  | .frame | .world | .attributes | .solid => s.state.popAttributes.map fun state => { s with state }
  | .transform => s.state.popTransform.map fun state => { s with state }
  | .motion => .ok { s with motion := none }
  | .context | .object | .resource | .archive => .ok s

theorem leaveRun (m : Mode) (s : Session) : (leave m).run s = match s.modes.pop m with
    | .error p => (.error p, s)
    | .ok modes => match left m { s with modes } with
      | .error p => (.error p, { s with modes })
      | .ok t => (.ok (), t) := by
  simp only [leave, runBind, runGet, runLift]
  cases s.modes.pop m with
  | error p => rfl
  | ok modes =>
    simp only [runModify]
    cases m with
    | frame | world | attributes | solid =>
      simp only [runBind, runGet, runLift, left]
      cases s.state.popAttributes <;> rfl
    | transform =>
      simp only [runBind, runGet, runLift, left]
      cases s.state.popTransform <;> rfl
    | _ => rfl

/-- A move of the shape; where the stacks are in step, none was found empty. -/
structure Moves {α : Type} (nests : Bool) (m : Run α) (s : Session) : Prop where
  move : Shape.Move s.shape nests (m.run s).2.shape
  told : s.shape.InStep → Told s (m.run s).2
  raised : s.shape.InStep → ∀ p, (m.run s).1 = .error p → ¬ p.IsUnderflow

section Moves
variable {α β : Type} {s : Session} {nests : Bool}

theorem movesRun {m : Run α} {x : Except Problem α} {t : Session} (run : m.run s = (x, t))
    (move : Shape.Move s.shape nests t.shape) (told : s.shape.InStep → Told s t)
    (raised : s.shape.InStep → ∀ p, x = .error p → ¬ p.IsUnderflow) : Moves nests m s :=
  ⟨by rw [run]; exact move, by rw [run]; exact told, by rw [run]; exact raised⟩

theorem movesDone {m : Run α} {a : α} {t : Session} (run : m.run s = (.ok a, t))
    (move : Shape.Move s.shape nests t.shape) (told : t.notices = s.notices) : Moves nests m s :=
  movesRun run move (fun _ => toldSame told) fun _ _ same => by cases same

theorem movesSilent {m : Run α} (silent : Silent m s) : Moves false m s :=
  ⟨by rw [silent.shape]; exact .stay, fun _ => silent.told, fun _ => silent.raised⟩

theorem movesRefused {m : Run α} {p : Problem} {t : Session} (run : m.run s = (.error p, t))
    (shape : t.shape = s.shape) (told : t.notices = s.notices) (expected : p.Expected) :
    Moves false m s :=
  movesSilent (silentRun run shape (toldSame told) fun _ same => by
    cases same
    exact Problem.expectedNoUnderflow expected)

theorem silentThenMoves {m : Run α} {f : α → Run β} (first : Silent m s)
    (next : ∀ a t, m.run s = (.ok a, t) → Moves false (f a) t) : Moves false (m >>= f) s := by
  have split := runBind m f s
  cases run : m.run s with
  | mk x t =>
    obtain ⟨shape, told, raised⟩ := first
    rw [run] at split shape told raised
    cases x with
    | error p =>
      refine movesRun split (shape ▸ .stay) (fun _ => told) fun _ q same => ?_
      exact raised q (by cases same; rfl)
    | ok a =>
      obtain ⟨move, later, last⟩ := next a t run
      rw [show t.shape = s.shape from shape] at move later last
      exact movesRun split move (fun inStep => toldTrans told (later inStep)) last

theorem movesGet {f : Session → Run β} (next : Moves nests (f s) s) : Moves nests (get >>= f) s :=
  movesRun (runBind get f s) next.move next.told next.raised

theorem movesLift {x : Except Problem α} {P : α → Prop} (sound : Outcome.Yields P x) {f : α → Run β}
    (next : ∀ a, P a → Moves false (f a) s) : Moves false (Run.lift x >>= f) s := by
  cases x with
  | error p => exact movesSilent (silentThrow (Problem.expectedNoUnderflow sound))
  | ok a => exact next a sound

theorem movesThenSilent {m : Run α} {f : α → Run β} (first : Moves nests m s)
    (next : ∀ a t, m.run s = (.ok a, t) → Silent (f a) t) : Moves nests (m >>= f) s := by
  have split := runBind m f s
  cases run : m.run s with
  | mk x t =>
    obtain ⟨move, told, raised⟩ := first
    rw [run] at split move told raised
    cases x with
    | error p =>
      exact movesRun split move told fun inStep q same => raised inStep q (by cases same; rfl)
    | ok a =>
      have after := next a t run
      exact movesRun split (after.shape ▸ move)
        (fun inStep => toldTrans (told inStep) after.told) fun _ => after.raised

end Moves

theorem enteredShape {m : Mode} (s : Session) (inner : m ≠ .context) :
    (entered m s).shape = { s.shape with
      frames := s.shape.frames + m.keepsAttributes.toNat
      transforms := s.shape.transforms + m.keepsTransform.toNat } := by
  cases m <;> first | rfl | contradiction

theorem enteredNotices (m : Mode) (s : Session) : (entered m s).notices = s.notices := by
  cases m <;> rfl

theorem movesEnter {m : Mode} {s : Session} (plain : s.recordsObject = false) (other : m ≠ .object) :
    Moves false (enter m) s := by
  have run := enterRun m s
  cases pushed : s.modes.push m with
  | error p =>
    rw [pushed] at run
    exact movesRefused run rfl rfl (pushExpected pushed)
  | ok modes =>
    rw [pushed] at run
    obtain ⟨rfl, may⟩ := pushedModes pushed
    refine movesDone run ?_ (enteredNotices m _)
    by_cases inner : m = .context
    · subst inner
      exact Shape.Move.openContext (fun member => nomatch mayOpenContext may .context member) plain
    · rw [enteredShape _ inner]
      exact Shape.Move.enter m (mayOpenInner may inner) plain inner other

theorem leftShape {m : Mode} {s t : Session} (ok : left m s = .ok t) :
    t.shape = { s.shape with
      frames := s.shape.frames - m.keepsAttributes.toNat
      transforms := s.shape.transforms - m.keepsTransform.toNat } ∧ t.notices = s.notices := by
  cases m with
  | frame | world | attributes | solid =>
    simp only [left, State.popAttributes] at ok
    split at ok
    · cases ok
    · rename_i top rest eq
      cases ok
      simp [shape, eq, Mode.keepsAttributes, Mode.keepsTransform, recordsObject]
  | transform =>
    simp only [left, State.popTransform] at ok
    split at ok
    · cases ok
    · rename_i top rest eq
      cases ok
      simp [shape, eq, Mode.keepsAttributes, Mode.keepsTransform, recordsObject]
  | _ =>
    cases ok
    exact ⟨rfl, rfl⟩

theorem leftRefused {m : Mode} {s : Session} {p : Problem} (refused : left m s = .error p) :
    m.keepsAttributes = true ∧ m.keepsTransform = false ∧ s.shape.frames = 0 ∨
      m.keepsAttributes = false ∧ m.keepsTransform = true ∧ s.shape.transforms = 0 := by
  cases m with
  | frame | world | attributes | solid =>
    simp only [left, State.popAttributes] at refused
    split at refused
    · rename_i eq
      exact .inl ⟨rfl, rfl, by simp [shape, eq]⟩
    · cases refused
  | transform =>
    simp only [left, State.popTransform] at refused
    split at refused
    · rename_i eq
      exact .inr ⟨rfl, rfl, by simp [shape, eq]⟩
    · cases refused
  | _ => cases refused

theorem movesLeave {m : Mode} {s : Session} (plain : s.recordsObject = false) (inner : m ≠ .context)
    (other : m ≠ .object) : Moves false (leave m) s := by
  have run := leaveRun m s
  cases popped : s.modes.pop m with
  | error p =>
    rw [popped] at run
    exact movesRefused run rfl rfl (popExpected popped)
  | ok modes =>
    have top := poppedModes popped
    have move := Shape.Move.leave (x := s.shape) top plain inner other
    rw [popped] at run
    dsimp only at run
    cases ends : left m { s with modes } with
    | ok t =>
      rw [ends] at run
      obtain ⟨shape, told⟩ := leftShape ends
      exact movesDone run (shape ▸ move) told
    | error p =>
      rw [ends] at run
      have lacks := leftRefused ends
      refine movesRun run ?_ (fun _ => toldSame rfl) fun inStep => ?_
      · have unchanged : ({ s with modes } : Session).shape = ⟨modes.blocks,
            s.shape.frames - m.keepsAttributes.toNat, s.shape.transforms - m.keepsTransform.toNat,
            s.recordsObject⟩ := by
          obtain ⟨attributes, transform, empty⟩ | ⟨attributes, transform, empty⟩ := lacks
          all_goals
            have none := empty
            simp only [shape] at none
            simp [shape, attributes, transform, none, recordsObject]
        rw [unchanged]
        exact move
      · have kept := Shape.keptInStep inStep plain top
        obtain ⟨attributes, -, empty⟩ | ⟨-, transform, empty⟩ := lacks
        · exact absurd empty (kept.1 attributes)
        · exact absurd empty (kept.2 transform)

theorem movesEndContext {s : Session} (plain : s.recordsObject = false) :
    Moves false endContext s := by
  refine movesGet (movesThenSilent ?_ fun _ t _ => ?_)
  · exact movesDone rfl (.closeContext plain) rfl
  · split
    · rename_i p warning
      exact silentReport (leftOpenExpected warning)
    · exact silentPure ()

theorem movesSolid {r : Request} {s : Session} (plain : s.recordsObject = false) :
    Moves false (beginSolid r) s := by
  refine movesLift (Args.safeRead Args.safeString r) fun operation _ => ?_
  have opened : Moves false (do
      enter .solid
      if operation ≠ "primitive" then
        let p := Problem.of .unimplemented s!"SolidBegin \"{operation}\": members are emitted unchanged"
        Run.report (p.atLine r.line) : Run Unit) s := by
    refine movesThenSilent (movesEnter plain (by decide)) fun _ t _ => ?_
    split
    · exact silentReport nofun
    · exact silentPure ()
  dsimp only
  split
  · exact opened
  · exact movesSilent (silentThrow fun underflow => nomatch underflow.1)

theorem movesRecord {m : Mode} {s : Session} (target : Target)
    (move : ∀ modes, s.modes.push m = .ok modes → Shape.Move s.shape false
      ({ s with modes, recording := some ⟨target, [], 0⟩ } : Session).shape)
    (same : ∀ t, entered m t = t) : Moves false (enter m >>= fun _ => record target) s := by
  have run : (enter m >>= fun _ => record target).run s = _ := runBind _ _ s
  rw [enterRun] at run
  cases pushed : s.modes.push m with
  | error p =>
    rw [pushed] at run
    exact movesRefused run rfl rfl (pushExpected pushed)
  | ok modes =>
    rw [pushed] at run
    dsimp only at run
    rw [same] at run
    exact movesDone run (move modes pushed) rfl

theorem safeHandle : Safe Handle.read := by
  refine safeBind safeGet fun a => ?_
  split
  · exact safeBind Args.safeString fun _ => safePure _
  · exact safeBind Args.safeInt fun _ => safePure _

theorem movesObject {r : Request} {s : Session} (plain : s.recordsObject = false) :
    Moves false (do
      let h ← Run.lift (Args.read r Handle.read)
      enter .object
      record (.object h)) s := by
  refine movesLift (Args.safeRead safeHandle r) fun h _ => ?_
  refine movesRecord _ (fun modes pushed => ?_) fun _ => rfl
  obtain ⟨rfl, may⟩ := pushedModes pushed
  exact .define (mayOpenInner may (by decide)) plain

theorem movesArchive {r : Request} {s : Session} (plain : s.recordsObject = false) :
    Moves false (do
      let name ← Run.lift (Args.read r Args.string)
      enter .archive
      record (.archive name)) s := by
  refine movesLift (Args.safeRead Args.safeString r) fun h _ => ?_
  refine movesRecord _ (fun modes pushed => ?_) fun _ => rfl
  obtain ⟨rfl, may⟩ := pushedModes pushed
  have move := Shape.Move.enter (x := s.shape) .archive (mayOpenInner may (by decide)) plain
    (by decide) (by decide)
  rw [show s.shape.recordsObject = false from plain] at move
  exact move

/-! Requests that neither open nor close a block. -/

def plays : RequestKind → Bool
  | .objectInstance | .readArchive => true
  | _ => false

theorem silentState {r : Request} {s : Session} :
    Silent (do
      let state ← Run.lift ((← get).state.applyTransform r)
      modify fun s => { s with state }) s := by
  refine silentGet (silentLift (State.applyTransformPlaces r s.state) fun state placed => ?_)
  obtain ⟨-, frames, transforms⟩ := placed
  exact silentModify (by simp [shape, frames, transforms, recordsObject]) rfl

theorem silentAttributes {r : Request} {s : Session} :
    Silent (do
      let state ← Run.declaring ((← get).state.applyAttribute r)
      modify fun s => { s with state }) s := by
  refine silentGet (silentDeclaring (State.applyAttributeEnds r s.state s.dictionary)
    (fun p d => Problem.expectedNoUnderflow) fun state d styled => ?_)
  obtain ⟨-, frames, transforms⟩ := styled
  exact silentModify (by simp [shape, frames, transforms, recordsObject]) rfl

theorem silentPlain (play : Player) {r : Request} (direct : plays r.kind = false) (s : Session) :
    Silent (applyPlain play r) s := by
  unfold applyPlain
  dsimp only
  split
  · exact silentDeclare r s
  · exact silentLift (Args.safeRead (Args.safeWord _ _) r) fun mode _ => silentModify rfl rfl
  · rename_i kind
    rw [kind] at direct
    cases direct
  · rename_i kind
    rw [kind] at direct
    cases direct
  · exact silentColorSamples r s
  · exact silentOption r s
  · exact silentReport nofun
  · exact silentReport nofun
  · split
    · exact silentState
    · exact silentAttributes
    · exact silentAttributes
    · exact silentTessellate r s
    · exact silentPure ()

theorem movesApply (play : Player) {r : Request} (direct : plays r.kind = false) {s : Session}
    (plain : s.recordsObject = false) : Moves false (apply play r) s := by
  unfold apply
  split
  · exact movesEndContext plain
  · exact movesSilent (silentPure ())
  · exact movesSilent (silentPure ())
  · exact movesSolid plain
  · exact movesObject plain
  · exact movesArchive plain
  · rename_i notEnd notObject notArchive notSolid notBegin notArchiveBegin
    split
    · rename_i m opened
      refine movesEnter plain fun same => ?_
      exact notBegin (openedObject (same ▸ opened))
    · rename_i m opened closed
      refine movesLeave plain (fun same => ?_) fun same => ?_
      · exact notEnd (closedContext (same ▸ closed))
      · exact notObject (closedObject (same ▸ closed))
    · exact movesSilent (silentPlain play direct s)

end SceneStream.Session
