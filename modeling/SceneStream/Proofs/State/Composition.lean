import SceneStream.Proofs.Geometry.Transform
import SceneStream.Proofs.Request.Expected
import SceneStream.State

/-! The current transform as it is composed by requests. A point goes through what was asked for last first, and then
through what came before it; the identity and a matrix of its own make a new start. -/
namespace SceneStream
open SceneStream.Geometry
open SceneStream.Outcome (okBind)

/-- What a request to move the current system asks for, in the numbers that it was given. -/
inductive Placement where
  | identity
  | transform (m : Quad (Quad Single))
  | concat (m : Quad (Quad Single))
  | translate (v : Vec Single)
  | scale (v : Vec Single)
  | rotate (degrees : Single) (axis : Vec Single)
  | skew (degrees : Single) (d e : Vec Single)

/-- Numbers that stored ones stand for, and the transforms that turn and shear space. -/
structure Figures (α : Type) where
  number : Single → α
  rotate : Single → Vec Single → Transform α
  skew : Single → Vec Single → Vec Single → Transform α

namespace Figures
variable {α : Type} (f : Figures α)

def vec (v : Vec Single) : Vec α := v.map f.number

def matrix (m : Quad (Quad Single)) : Quad (Quad α) := m.map (·.map f.number)

end Figures

/-- Those that the program computes with. -/
def doubles : Figures Float where
  number := Single.toFloat
  rotate degrees axis := (Transform.rotate? degrees.toFloat (axis.map Single.toFloat)).getD .identity
  skew degrees d e :=
    (Transform.skew? degrees.toFloat (d.map Single.toFloat) (e.map Single.toFloat)).getD .identity

namespace Placement
open SceneStream.Args

def singles : Read (Vec Single) := return ⟨← float, ← float, ← float⟩

def kinds : List RequestKind := [.identity, .transform, .concatTransform, .translate, .scale, .rotate, .skew]

def reader (kind : RequestKind) : Read Placement :=
  match kind with
  | .transform => return .transform (← matrix)
  | .concatTransform => return .concat (← matrix)
  | .translate => return .translate (← singles)
  | .scale => return .scale (← singles)
  | .rotate => return .rotate (← float) (← singles)
  | .skew => return .skew (← float) (← singles) (← singles)
  | _ => return .identity

def of (r : Request) : Except Problem Placement := read r (reader r.kind)

def refusal (kind : RequestKind) : Placement → Option Problem
  | rotate degrees axis =>
    if (Transform.rotate? degrees.toFloat (axis.map Single.toFloat)).isSome then none
    else some (outOfRange kind "rotation axis has zero length")
  | skew degrees d e =>
    if (Transform.skew? degrees.toFloat (d.map Single.toFloat) (e.map Single.toFloat)).isSome then none
    else some (outOfRange kind s!"cannot skew by {doubleText degrees.toFloat} degrees")
  | _ => none

variable {α : Type} [Scalar α] (f : Figures α)

def after (t : Transform α) : Placement → Transform α
  | identity => .identity
  | transform m => ⟨(f.matrix m).transpose⟩
  | concat m => t.compose ⟨(f.matrix m).transpose⟩
  | translate v => t.compose (.translate (f.vec v))
  | scale v => t.compose (.scale (f.vec v))
  | rotate degrees axis => t.compose (f.rotate degrees axis)
  | skew degrees d e => t.compose (f.skew degrees d e)

/-- What a placement alone does to a point, that of a matrix as it was written, for rows. -/
def act (p : Vec α) : Placement → Vec α
  | identity => p
  | transform m | concat m => (f.matrix m).rowImage p
  | translate v => p + f.vec v
  | scale v => ⟨p.x * f.number v.x, p.y * f.number v.y, p.z * f.number v.z⟩
  | rotate degrees axis => (f.rotate degrees axis).apply p
  | skew degrees d e => (f.skew degrees d e).apply p

/-- A point on its way through placements, the newest one first, to where the last fresh start is or the first
transform of all. -/
def through (start : Transform α) : List Placement → Vec α → Vec α
  | [], p => start.apply p
  | .identity :: _, p => act f p .identity
  | .transform m :: _, p => act f p (.transform m)
  | newest :: older, p => through start older (act f p newest)

/-- Nothing projective is asked to be composed. -/
def Affine : Placement → Prop
  | concat m => Transform.Affine (α := α) ⟨(f.matrix m).transpose⟩
  | rotate degrees axis => (f.rotate degrees axis).Affine
  | skew degrees d e => (f.skew degrees d e).Affine
  | _ => True

theorem acceptedAffine {kind : RequestKind} {p : Placement} (accepted : p.refusal kind = none)
    (own : ∀ m, p ≠ .concat m) : p.Affine doubles := by
  cases p with
  | concat m => exact absurd rfl (own m)
  | rotate degrees axis =>
    cases turned : Transform.rotate? degrees.toFloat (axis.map Single.toFloat) with
    | none => simp [refusal, turned] at accepted
    | some t => simpa only [Affine, doubles, turned, Option.getD_some] using Transform.rotateAffine turned
  | skew degrees d e =>
    cases sheared : Transform.skew? degrees.toFloat (d.map Single.toFloat) (e.map Single.toFloat) with
    | none => simp [refusal, sheared] at accepted
    | some t => simpa only [Affine, doubles, sheared, Option.getD_some] using Transform.skewAffine sheared
  | _ => trivial

end Placement

theorem readFinish {β γ : Type} (r : Request) (m : Args.Read β) (f : β → Except Problem γ) :
    Args.read r (m >>= fun x => ExceptT.mk (pure (f x))) = Args.read r m >>= f := by
  simp only [Args.read, Work.runBind]
  cases m.run (Args.of r) with
  | mk x a => cases x <;> rfl

theorem vecSingles : Args.vec = do return (← Placement.singles).map Single.toFloat := by
  simp only [Args.vec, Args.double, Placement.singles, bind_assoc, pure_bind]
  rfl

namespace State

def placed (kind : RequestKind) (s : State) (p : Placement) : Except Problem State :=
  match p.refusal kind with
  | some problem => .error problem
  | none => .ok { s with transform := p.after doubles s.transform }

theorem transformedReads {kind : RequestKind} (s : State) (known : kind ∈ Placement.kinds) :
    s.transformed kind = (Placement.reader kind >>= fun p => ExceptT.mk (pure (s.placed kind p))) := by
  simp only [Placement.kinds, List.mem_cons, List.not_mem_nil, or_false] at known
  rcases known with rfl | rfl | rfl | rfl | rfl | rfl | rfl
  · rfl
  · simp only [transformed, Placement.reader, bind_assoc, pure_bind]
    rfl
  · simp only [transformed, Placement.reader, bind_assoc, pure_bind]
    rfl
  · simp only [transformed, Placement.reader, vecSingles, bind_assoc, pure_bind]
    rfl
  · simp only [transformed, Placement.reader, vecSingles, bind_assoc, pure_bind]
    rfl
  · simp only [transformed, Placement.reader, vecSingles, Args.double, bind_assoc, pure_bind]
    refine bind_congr fun degrees => bind_congr fun axis => ?_
    cases turned : Transform.rotate? degrees.toFloat (axis.map Single.toFloat) with
    | some t =>
      simp only [placed, Placement.refusal, Placement.after, doubles, turned]
      rfl
    | none =>
      simp only [placed, Placement.refusal, turned]
      rfl
  · simp only [transformed, Placement.reader, vecSingles, Args.double, bind_assoc, pure_bind]
    refine bind_congr fun degrees => bind_congr fun d => bind_congr fun e => ?_
    cases sheared : Transform.skew? degrees.toFloat (d.map Single.toFloat) (e.map Single.toFloat) with
    | some t =>
      simp only [placed, Placement.refusal, Placement.after, doubles, sheared]
      rfl
    | none =>
      simp only [placed, Placement.refusal, sheared]
      rfl

theorem applyPlaced {r : Request} (s : State) (known : r.kind ∈ Placement.kinds) :
    s.applyTransform r = Placement.of r >>= s.placed r.kind := by
  rw [applyTransform, transformedReads s known, readFinish]
  rfl

theorem runPlaced {rs : List Request} {s last : State} (known : ∀ r ∈ rs, r.kind ∈ Placement.kinds)
    (accepted : rs.foldlM (fun s r => s.applyTransform r) s = .ok last) : ∃ ps, rs.mapM Placement.of = .ok ps ∧
      last = { s with transform := ps.foldl (Placement.after doubles) s.transform } ∧
      ∀ p ∈ ps, (∀ m, p ≠ .concat m) → p.Affine doubles := by
  induction rs generalizing s with
  | nil =>
    cases accepted
    refine ⟨[], rfl, rfl, fun p mem => ?_⟩
    cases mem
  | cons r rs ih =>
    rw [List.forall_mem_cons] at known
    obtain ⟨next, first, rest⟩ := okBind accepted
    obtain ⟨p, asked, done⟩ := okBind ((applyPlaced s known.1).symm.trans first)
    obtain ⟨ps, others, same, affine⟩ := ih known.2 rest
    refine ⟨p :: ps, by rw [List.mapM_cons, asked, others]; rfl, ?_⟩
    unfold placed at done
    split at done
    · cases done
    · rename_i taken
      cases done
      exact ⟨same, List.forall_mem_cons.mpr ⟨Placement.acceptedAffine taken, affine⟩⟩

end State

namespace Placement
variable {α : Type} [Field α] [LinearOrder α] [Roots α] [IsStrictOrderedRing α] (f : Figures α)

theorem afterThrough {start t : Transform α} {older : List Placement} (known : ∀ q, t.apply q = through f start older q)
    {p : Placement} (affine : p.Affine f) (q : Vec α) : (p.after f t).apply q = through f start (p :: older) q := by
  cases p with
  | identity => exact Transform.identityApply q
  | transform m => exact Transform.transposeApply _ q
  | concat m => rw [after, Transform.composeApply _ affine, known, Transform.transposeApply]; rfl
  | translate v => rw [after, Transform.composeApply _ (Transform.translateAffine _), known, Transform.translateApply]; rfl
  | scale v => rw [after, Transform.composeApply _ (Transform.scaleAffine _), known, Transform.scaleApply]; rfl
  | rotate degrees axis => rw [after, Transform.composeApply _ affine, known]; rfl
  | skew degrees d e => rw [after, Transform.composeApply _ affine, known]; rfl

theorem runThrough (start : Transform α) {ps : List Placement} (affine : ∀ p ∈ ps, p.Affine f) (q : Vec α) :
    (ps.foldl (after f) start).apply q = through f start ps.reverse q := by
  induction ps using List.reverseRecOn generalizing q with
  | nil => rfl
  | append_singleton ps p ih =>
    rw [List.forall_mem_append, List.forall_mem_singleton] at affine
    rw [List.foldl_append, List.reverse_append]
    exact afterThrough f (ih affine.1) affine.2 q

end Placement

/-- Requests that are accepted compose their placements and change nothing else; the rotations and skews among them are
affine. In exact arithmetic the transform that comes of these takes a point through the newest one first, and through
the first transform of all in the end. -/
theorem newestFirst {rs : List Request} {s last : State} (known : ∀ r ∈ rs, r.kind ∈ Placement.kinds)
    (accepted : rs.foldlM (fun s r => s.applyTransform r) s = .ok last) : ∃ ps, rs.mapM Placement.of = .ok ps ∧
      last = { s with transform := ps.foldl (Placement.after doubles) s.transform } ∧
      (∀ p ∈ ps, (∀ m, p ≠ .concat m) → p.Affine doubles) ∧
      ∀ (α : Type) [Field α] [LinearOrder α] [Roots α] [IsStrictOrderedRing α] (f : Figures α) (start : Transform α),
        (∀ p ∈ ps, p.Affine f) →
          ∀ q, (ps.foldl (Placement.after f) start).apply q = Placement.through f start ps.reverse q := by
  obtain ⟨ps, asked, same, own⟩ := State.runPlaced known accepted
  refine ⟨ps, asked, same, own, ?_⟩
  intro α _ _ _ _ f start affine q
  exact Placement.runThrough f start affine q

/-- Along one axis, twice as large, and along another one by a matrix, whose last row says how far. -/
def stacked : List Request := [
  ⟨.translate, 1, [.of (.integers [1, 0, 0]) true]⟩, ⟨.scale, 2, [.of (.integers [2, 2, 2]) true]⟩,
  ⟨.concatTransform, 3, [.of (.integers [1, 0, 0, 0, 0, 1, 0, 0, 0, 0, 1, 0, 0, 0, 5, 1]) true]⟩]

def stackedPlacements : List Placement :=
  let n (i : Int) : Single := .ofInt i
  [.translate ⟨n 1, n 0, n 0⟩, .scale ⟨n 2, n 2, n 2⟩,
    .concat ⟨⟨n 1, n 0, n 0, n 0⟩, ⟨n 0, n 1, n 0, n 0⟩, ⟨n 0, n 0, n 1, n 0⟩, ⟨n 0, n 0, n 5, n 1⟩⟩]

def wholes : Figures ℚ where
  number x := x.integer?.getD 0
  rotate _ _ := .identity
  skew _ _ _ := .identity

theorem stackedNewestFirst : (∀ r ∈ stacked, r.kind ∈ Placement.kinds) ∧
    (∃ last, stacked.foldlM (fun s r => s.applyTransform r) (State.initial 3 (1, 1)) = .ok last) ∧
    stacked.mapM Placement.of = .ok stackedPlacements ∧ (∀ p ∈ stackedPlacements, p.Affine wholes) ∧
    (stackedPlacements.foldl (Placement.after wholes) .identity).apply ⟨1, 0, 0⟩ = ⟨3, 0, 10⟩ := by
  have known : ∀ r ∈ stacked, r.kind ∈ Placement.kinds := by decide
  have accepted : stacked.foldlM (fun s r => s.applyTransform r) (State.initial 3 (1, 1)) = .ok _ := rfl
  have listed : stacked.mapM Placement.of = .ok stackedPlacements := rfl
  have affine : ∀ p ∈ stackedPlacements, p.Affine wholes := by
    intro p mem
    simp only [stackedPlacements, List.mem_cons, List.not_mem_nil, or_false] at mem
    rcases mem with rfl | rfl | rfl
    · trivial
    · trivial
    · change (wholes.matrix _).transpose.w = (⟨0, 0, 0, 1⟩ : Quad ℚ)
      decide +kernel
  obtain ⟨ps, asked, -, -, exact⟩ := newestFirst known accepted
  cases asked.symm.trans listed
  refine ⟨known, ⟨_, accepted⟩, listed, affine, ?_⟩
  rw [exact ℚ wholes .identity affine]
  decide +kernel

end SceneStream
