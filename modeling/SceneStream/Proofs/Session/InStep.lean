import SceneStream.Proofs.Session.Reachable

/-! The stack of blocks and the stacks of the graphics state stay in step, as long as no object begins
inside another that is being written down. The end of the inner one would end the outer one, and leave
blocks behind that have kept nothing. -/
namespace SceneStream.Session
open SceneStream.Work

theorem stepMoves {play : Player} {s : Session} {r : Request} (direct : Direct s r)
    (running : s.aborted = false) :
    Shape.Move s.shape (nests s r) (step play s r).shape := by
  have moves := (movesDispatch play direct).move
  unfold step
  rw [if_neg (by simp [running])]
  split
  · rename_i run
    rw [run] at moves
    exact moves
  · rename_i run
    rw [run] at moves
    rw [shapeFail]
    exact moves

theorem stepTold {play : Player} {s : Session} {r : Request} (direct : Direct s r)
    (inStep : s.shape.InStep) : Told s (step play s r) := by
  have moves := movesDispatch play direct
  have told := moves.told inStep
  have raised := moves.raised inStep
  unfold step
  split
  · exact toldRefl s
  · split
    · rename_i run
      rw [run] at told
      exact told
    · rename_i p t run
      rw [run] at told raised
      exact toldTrans told (toldFail t (raised p rfl))

theorem objectEnds {s : Session} {x : Recording} {h : Handle} {r : Request}
    (inStep : s.shape.InStep) (recording : s.recording = some x) (target : x.target = .object h)
    (ends : r.kind = .objectEnd) (checked : s.check r = .ok ()) :
    ∃ outer, s.modes.blocks = .object :: outer ∧ .object ∉ outer ∧ ∀ play,
      (dispatch play r).run s = (.ok (), tell (.done r) { s with
        modes := ⟨outer⟩
        recording := none
        objects := (h, x.requests.reverse) :: s.objects }) := by
  have closed : Mode.closedBy r.kind = some .object := by rw [ends]; rfl
  obtain ⟨outer, top⟩ := allowedClose (checkedAllows checked) closed (by decide)
  have records := recordsObjectOf recording
  rw [target] at records
  refine ⟨outer, top, ?_, fun play => ?_⟩
  · have objects := inStep.objects
    rw [show s.shape.blocks = _ from top, show s.shape.recordsObject = _ from records] at objects
    exact List.count_eq_zero.mp (by simpa using objects)
  · have kept := keepRun x s
    rw [target, show s.modes.pop (Target.mode (.object h)) = _ from popTop top] at kept
    have run : (dispatch play r).run s = (recordObject x r).run s := by
      simp only [dispatch, runBind, runGet, recording, target]
    rw [run, recordObjectRun, checked]
    simp only [ends, if_true, finishRecording, runBind, kept]
    simp only [defined, target]
    rfl

/-- In an open context the stacks are in step unless an object is open that is not being written down,
and such objects come from the ObjectBegin requests that are accepted inside a definition. While the
stacks are in step, no empty stack is told of, a definition leaves the blocks around it as they are, and
ObjectEnd ends the one definition that is open. -/
theorem stacksStayInStep {options : SessionOptions} {files : Files} {s : Session}
    (reached : Reachable options files s) :
    (s.shape.isOpen → (s.shape.InStep ↔ s.shape.strays = 0)) ∧
    (∀ play r, Direct s r → s.aborted = false → (step play s r).shape.isOpen →
      (step play s r).shape.strays = s.shape.strays + (nests s r).toNat) ∧
    (s.shape.InStep → ∀ play r, Direct s r → Told s (step play s r)) ∧
    (s.shape.InStep → ∀ play r, Direct s r → s.aborted = false →
      (s.recordsObject ∨ (step play s r).recordsObject) →
      (step play s r).shape.outside = s.shape.outside) ∧
    (s.shape.InStep → ∀ x h r, s.recording = some x → x.target = .object h → r.kind = .objectEnd →
      s.check r = .ok () → ∃ outer, s.modes.blocks = .object :: outer ∧ .object ∉ outer ∧
        ∀ play, (dispatch play r).run s = (.ok (), tell (.done r) { s with
          modes := ⟨outer⟩
          recording := none
          objects := (h, x.requests.reverse) :: s.objects })) := by
  have sound := reachableSound reached
  refine ⟨Shape.inStepIff sound, ?_, ?_, ?_, ?_⟩
  · intro play r direct running isOpen
    exact Shape.moveStrays (stepMoves direct running) sound isOpen
  · exact fun inStep play r direct => stepTold direct inStep
  · intro inStep play r direct running either
    exact Shape.moveOutside (stepMoves direct running) sound inStep either
  · exact fun inStep x h r recording target ends checked =>
      objectEnds inStep recording target ends checked

/-- Inside an attribute block of a definition another object begins; its end ends the definition. -/
def objectInside : List Request := [
  ⟨.objectBegin, 1, [.of (.integers [1]) false]⟩, ⟨.attributeBegin, 2, []⟩,
  ⟨.objectBegin, 3, [.of (.integers [2]) false]⟩, ⟨.objectEnd, 4, []⟩]

theorem stacksInStepInside :
    ((objectInside.take 2).foldl process (start .default (.bare []))).shape.InStep :=
  ((stacksStayInStep (reachableProcess .start (objectInside.take 2))).1 (by decide)).mpr (by decide)

theorem objectInsideOutOfStep :
    let s := objectInside.foldl process (start .default (.bare []))
    s.shape.isOpen ∧ ¬ s.shape.InStep ∧ s.recording = none ∧
      ∃ p, .problem p ∈ (process s ⟨.attributeEnd, 5, []⟩).notices ∧ p.IsUnderflow := by
  refine ⟨by decide, by decide, rfl, ?_⟩
  exact ⟨⟨.internal, .severe, "attribute stack underflow", some 5, none⟩, .head _, rfl, .inl rfl⟩

end SceneStream.Session
