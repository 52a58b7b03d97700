import SceneStream.Proofs.Primitive.Tessellate
import SceneStream.Proofs.Session.Shape
import SceneStream.Proofs.State
import SceneStream.Session

/-! Requests that neither open nor close a block, nor play others, leave the shape of a session as it is.
None of them tells of an empty stack. -/
namespace SceneStream

def Problem.IsUnderflow (p : Problem) : Prop :=
  p.kind = .internal ∧
    (p.message = "attribute stack underflow" ∨ p.message = "transform stack underflow")

instance (p : Problem) : Decidable p.IsUnderflow := by
  unfold Problem.IsUnderflow
  infer_instance

theorem Problem.colonNoUnderflow (a b : String) :
    ¬ (Problem.of .internal s!"{a}: {b}").IsUnderflow := by
  have colon : ':' ∈ (s!"{a}: {b}").toList := by simp [toString]
  rintro ⟨-, same | same⟩
  all_goals
    have message : s!"{a}: {b}" = _ := same
    rw [message] at colon
    revert colon
    decide

theorem Problem.expectedNoUnderflow {p : Problem} (expected : p.Expected) : ¬ p.IsUnderflow :=
  fun h => expected (h.1 ▸ .internal)

theorem Problem.crashNoUnderflow {p : Problem} (crash : p.isCrash = true) : ¬ p.IsUnderflow := by
  rintro ⟨kind, -⟩
  rw [isCrash, kind] at crash
  cases crash

theorem Problem.streamNoUnderflow {p : Problem} (clear : ¬ p.IsUnderflow) (stream : Option String) :
    ¬ (match stream with
      | some name => p.inStream name
      | none => p).IsUnderflow := by
  cases stream <;> exact clear

namespace Session
open SceneStream.Work

def recordsObject (s : Session) : Bool :=
  match s.recording with
  | some ⟨.object _, _, _⟩ => true
  | _ => false

def shape (s : Session) : Shape :=
  ⟨s.modes.blocks, s.state.frames.length, s.state.transforms.length, s.recordsObject⟩

def Told (s t : Session) : Prop :=
  ∃ l, t.notices = l ++ s.notices ∧ ∀ p, .problem p ∈ l → ¬ p.IsUnderflow

theorem toldSame {s t : Session} (same : t.notices = s.notices) : Told s t :=
  ⟨[], same, fun _ member => nomatch member⟩

theorem toldRefl (s : Session) : Told s s := toldSame rfl

theorem toldTrans {s t u : Session} (first : Told s t) (next : Told t u) : Told s u := by
  obtain ⟨a, early, clear⟩ := first
  obtain ⟨b, late, still⟩ := next
  refine ⟨b ++ a, by rw [late, early, List.append_assoc], fun p member => ?_⟩
  obtain new | old := List.mem_append.mp member
  · exact still p new
  · exact clear p old

theorem toldReport (s : Session) {p : Problem} (clear : ¬ p.IsUnderflow) : Told s (s.report p) := by
  unfold report
  dsimp only
  split
  · exact toldSame rfl
  all_goals
    refine ⟨[_], rfl, fun q member => ?_⟩
    cases List.mem_singleton.mp member
    exact Problem.streamNoUnderflow clear s.stream

theorem shapeReport (s : Session) (p : Problem) : (s.report p).shape = s.shape := by
  unfold report
  dsimp only
  split <;> rfl

theorem shapeFail (s : Session) (p : Problem) : (s.fail p).shape = s.shape := by
  unfold fail
  split
  · rfl
  · exact shapeReport s p

theorem toldFail (s : Session) {p : Problem} (clear : ¬ p.IsUnderflow) : Told s (s.fail p) := by
  unfold fail
  split
  · exact toldSame rfl
  · exact toldReport s clear

structure Silent {α : Type} (m : Run α) (s : Session) : Prop where
  shape : (m.run s).2.shape = s.shape
  told : Told s (m.run s).2
  raised : ∀ p, (m.run s).1 = .error p → ¬ p.IsUnderflow

section Silent
variable {α β : Type} {s : Session}

theorem silentRun {m : Run α} {x : Except Problem α} {t : Session} (run : m.run s = (x, t))
    (shape : t.shape = s.shape) (told : Told s t) (raised : ∀ p, x = .error p → ¬ p.IsUnderflow) :
    Silent m s :=
  ⟨by rw [run]; exact shape, by rw [run]; exact told, by rw [run]; exact raised⟩

theorem silentAfter {m : Run α} {x : Except Problem α} {t : Session} (silent : Silent m s)
    (run : m.run s = (x, t)) : t.shape = s.shape := by
  have same := silent.shape
  rw [run] at same
  exact same

theorem silentPure (a : α) : Silent (pure a) s := ⟨rfl, toldRefl s, fun _ same => nomatch same⟩

theorem silentThrow {p : Problem} (clear : ¬ p.IsUnderflow) : Silent (throw p : Run α) s :=
  ⟨rfl, toldRefl s, fun _ same => by cases same; exact clear⟩

theorem silentBind {m : Run α} {f : α → Run β} (first : Silent m s)
    (next : ∀ a t, m.run s = (.ok a, t) → Silent (f a) t) : Silent (m >>= f) s := by
  have split := runBind m f s
  cases run : m.run s with
  | mk x t =>
    obtain ⟨shape, told, raised⟩ := first
    rw [run] at split shape told raised
    cases x with
    | error p =>
      exact silentRun split shape told fun q same => raised q (by cases same; rfl)
    | ok a =>
      have after := next a t run
      exact silentRun split (after.shape.trans shape) (toldTrans told after.told) after.raised

theorem silentGet {f : Session → Run β} (next : Silent (f s) s) : Silent (get >>= f) s :=
  silentRun (runBind get f s) next.shape next.told next.raised

theorem silentModify {g : Session → Session} (shape : (g s).shape = s.shape)
    (told : (g s).notices = s.notices) : Silent (modify g) s :=
  ⟨shape, toldSame told, fun _ same => nomatch same⟩

theorem silentReport {p : Problem} (expected : p.Expected) : Silent (Run.report p) s :=
  ⟨shapeReport s p, toldReport s (Problem.expectedNoUnderflow expected), fun _ same => nomatch same⟩

theorem silentTell {n : Notice} (other : ∀ p, n ≠ .problem p) : Silent (Run.tell n) s := by
  refine ⟨rfl, ⟨[n], rfl, fun p member => ?_⟩, fun _ same => nomatch same⟩
  exact absurd (List.mem_singleton.mp member).symm (other p)

theorem silentLift {x : Except Problem α} {P : α → Prop} (sound : Outcome.Yields P x) {f : α → Run β}
    (next : ∀ a, P a → Silent (f a) s) : Silent (Run.lift x >>= f) s := by
  cases x with
  | error p => exact silentThrow (Problem.expectedNoUnderflow sound)
  | ok a => exact next a sound

theorem silentDeclaring {m : Declaring α} {E : Problem → Dictionary → Prop}
    {P : α → Dictionary → Prop} (ends : Declaring.Ends E P m s.dictionary)
    (clear : ∀ p d, E p d → ¬ p.IsUnderflow) {f : α → Run β}
    (next : ∀ a d, P a d → Silent (f a) { s with dictionary := d }) :
    Silent (Run.declaring m >>= f) s := by
  have outcome := ends.outcome
  refine silentBind ⟨rfl, toldSame rfl, fun p same => ?_⟩ fun a t run => ?_
  · rw [show ((Run.declaring m).run s).1 = (m.run s.dictionary).1 from rfl] at same
    rw [same] at outcome
    exact clear p _ outcome
  · have same : ((m.run s.dictionary).1, { s with dictionary := (m.run s.dictionary).2 }) =
        ((.ok a, t) : Except Problem α × Session) := run
    obtain ⟨ended, rfl⟩ := Prod.mk.inj same
    rw [ended] at outcome
    exact next a _ outcome

theorem silentForM {f : α → Run Unit} (each : ∀ a t, Silent (f a) t) (l : List α) (s : Session) :
    Silent (l.forM f) s := by
  induction l generalizing s with
  | nil => exact silentPure ()
  | cons a l ih => exact silentBind (each a s) fun _ t _ => ih t

end Silent

theorem silentEmit (surface : Surface) (s : Session) : Silent (emit surface) s := by
  refine silentGet ?_
  dsimp only
  split
  · exact silentThrow (Problem.colonNoUnderflow _ _)
  · exact silentTell fun p => nofun

theorem silentTessellate (r : Request) (s : Session) : Silent (tessellate r) s := by
  refine silentGet (silentDeclaring (Primitive.tessellateEnds _ r s.dictionary) ?_ ?_)
  · exact fun p d failed => failed.elim Problem.expectedNoUnderflow fun crash =>
      Problem.crashNoUnderflow crash.1
  intro outcome d _
  split
  · exact silentForM silentEmit _ _
  · exact silentTell fun p => nofun
  · exact silentPure ()

theorem silentLayoutOption (x : TokenValue) (s : Session) : Silent (layoutOption x) s := by
  refine silentDeclaring (Declaring.resolveEnds x.token s.dictionary)
    (fun p d => Problem.expectedNoUnderflow) fun y d _ => ?_
  split
  · dsimp only
    split
    · exact silentModify rfl rfl
    · exact silentThrow fun underflow => nomatch underflow.1
  · exact silentPure ()

theorem silentOption (r : Request) (s : Session) : Silent (option r) s := by
  refine silentLift (Args.safeRead ?_ r) fun list _ => silentForM silentLayoutOption list s
  refine safeBind Args.safeString fun name => ?_
  split
  · exact Args.safeTokenList
  · exact safePure _

theorem silentDeclare (r : Request) (s : Session) : Silent (declare r) s := by
  refine silentLift (Args.safeRead ?_ r) fun x _ => ?_
  · exact safeBind Args.safeString fun _ => safeBind Args.safeString fun _ => safePure _
  · refine silentGet (silentLift (Dictionary.safeDeclare s.dictionary x.1 x.2) fun y _ => ?_)
    refine silentBind (silentModify rfl rfl) fun _ t _ => ?_
    split
    · exact silentReport nofun
    · exact silentPure ()

theorem silentColorSamples (r : Request) (s : Session) : Silent (colorSamples r) s := by
  refine silentLift (Args.safeRead ?_ r) fun x _ => ?_
  · exact safeBind Args.safeFloatArray fun _ => safeBind Args.safeFloatArray fun _ => safePure _
  · obtain ⟨there, back⟩ := x
    have set : Silent (do
        let d ← Run.lift ((← get).dictionary.setColorSamples (there / 3))
        modify fun s =>
          { s with dictionary := d, state := s.state.setColorSamples (there / 3) }) s := by
      refine silentGet (silentLift (Dictionary.safeSetColorSamples s.dictionary (there / 3)) fun d _ => ?_)
      refine silentModify ?_ rfl
      simp [shape, State.setColorSamples, recordsObject]
    dsimp only
    split
    · exact silentThrow fun underflow => nomatch underflow.1
    · exact set

end Session
end SceneStream
