import SceneStream.Proofs.Number.Format
import SceneStream.Proofs.Variable
import SceneStream.State.Setting

/-! Requests that set the graphics state leave its two stacks as they were, and its attributes in range. -/
namespace SceneStream

/-- From one to the finest, along both sides. -/
structure Attributes.Fine (steps : Nat × Nat) : Prop where
  u : 1 ≤ steps.1 ∧ steps.1 ≤ finest
  v : 1 ≤ steps.2 ∧ steps.2 ≤ finest

/-- Its color and its opacity have a component for each of the samples, a patch goes on along its net, and the
tessellation is in range if the one is that was given first. -/
structure Attributes.InRange (samples : Nat) (given : Nat × Nat) (a : Attributes) : Prop where
  color : a.color.length = samples
  opacity : a.opacity.length = samples
  uStep : 0 < a.uBasis.step
  vStep : 0 < a.vBasis.step
  sides : a.sides = 1 ∨ a.sides = 2
  tessellation : Fine given → Fine a.tessellation

theorem Attributes.whitenInRange (samples : Nat) {before : Nat} {given : Nat × Nat} {a : Attributes}
    (inRange : a.InRange before given) : (a.whiten samples).InRange samples given :=
  { inRange with color := List.length_replicate, opacity := List.length_replicate }

namespace State
open SceneStream.Work SceneStream.Args
open SceneStream.Declaring (Ends endsPure endsLift endsBind endsLiftBind endsGet endsFoldlM)

structure InRange (samples : Nat) (given : Nat × Nat) (s : State) : Prop where
  current : s.attributes.InRange samples given
  kept : ∀ f ∈ s.frames, f.attributes.InRange samples given

theorem initialInRange (samples : Nat) (steps : Nat × Nat) : (initial samples steps).InRange samples steps :=
  ⟨⟨List.length_replicate, List.length_replicate, Nat.succ_pos 2, Nat.succ_pos 2, .inr rfl, id⟩,
    nofun⟩

theorem setColorSamplesInRange (samples : Nat) {before : Nat} {given : Nat × Nat} {s : State}
    (inRange : s.InRange before given) : (s.setColorSamples samples).InRange samples given := by
  refine ⟨Attributes.whitenInRange samples inRange.current, fun f mem => ?_⟩
  obtain ⟨g, older, rfl⟩ := List.mem_map.mp mem
  exact Attributes.whitenInRange samples (inRange.kept g older)

def Moved (s t : State) : Prop := t = { s with transform := t.transform }

theorem concatMoves (kind : RequestKind) (message : String) (s : State)
    (t : Option (Geometry.Transform Float)) :
    Yields (Moved s) (match t with
      | some t => return s.concat t
      | none => throw (Args.outOfRange kind message) : Args.Read State) := by
  split
  · exact yieldsPure rfl
  · exact yieldsThrow (outOfRangeExpected _ _)

theorem transformedMoves {kind : RequestKind} (s : State) (unnamed : kind ≠ .coordinateSystem)
    (unscoped : kind ≠ .scopedCoordinateSystem) : Yields (Moved s) (s.transformed kind) := by
  unfold transformed
  dsimp only
  split
  · exact yieldsPure rfl
  · exact safeBind safeMatrix fun _ => yieldsPure rfl
  · exact safeBind safeMatrix fun _ => yieldsPure rfl
  · exact safeBind safeFloat fun _ => concatMoves _ _ s _
  · exact safeBind safeVec fun _ => yieldsPure rfl
  · exact safeBind safeVec fun _ => yieldsPure rfl
  · exact safeBind safeDouble fun _ => safeBind safeVec fun _ => concatMoves _ _ s _
  · exact safeBind safeDouble fun _ => safeBind safeVec fun _ => safeBind safeVec fun _ => concatMoves _ _ s _
  · exact absurd rfl unnamed
  · exact absurd rfl unscoped
  · refine safeBind safeString fun name => ?_
    split
    · exact yieldsPure rfl
    · exact yieldsThrow (by nofun)
  · exact yieldsPure rfl

inductive Transformed (r : Request) (s : State) : State → Prop where
  | moved {t : State} (moved : Moved s t) : Transformed r s t
  | defined {name : String} (kind : r.kind = .coordinateSystem) (read : Args.read r Args.string = .ok name) :
      Transformed r s (s.define name)
  | definedWithin (name : String) : Transformed r s (s.defineScoped name)

theorem applyTransformEnds (r : Request) (s : State) :
    Outcome.Yields (Transformed r s) (s.applyTransform r) := by
  have safe := safeRead safeString r
  by_cases named : r.kind = .coordinateSystem
  · have run : s.applyTransform r = (Args.read r Args.string).map s.define := by
      rw [← readMap, applyTransform, named]
      rfl
    rw [run]
    exact Outcome.endsMap (Outcome.safeIs safe) fun name read => .defined named read
  · by_cases within : r.kind = .scopedCoordinateSystem
    · have run : s.applyTransform r = (Args.read r Args.string).map s.defineScoped := by
        rw [← readMap, applyTransform, within]
        rfl
      rw [run]
      exact Outcome.endsMap safe fun name _ => .definedWithin name
    · have moves : Outcome.Yields (Moved s) (s.applyTransform r) :=
        yieldsRead (transformedMoves s named within) r
      exact Outcome.endsMono moves (fun _ => id) fun _ => .moved

structure Placed (s t : State) : Prop where
  attributes : t.attributes = s.attributes
  frames : t.frames = s.frames
  transforms : t.transforms = s.transforms

theorem transformedPlaced {r : Request} {s t : State} (transformed : Transformed r s t) : Placed s t := by
  cases transformed with
  | moved moved =>
    rw [moved]
    exact ⟨rfl, rfl, rfl⟩
  | defined => exact ⟨rfl, rfl, rfl⟩
  | definedWithin => exact ⟨rfl, rfl, rfl⟩

theorem applyTransformPlaces (r : Request) (s : State) :
    Outcome.Yields (Placed s) (s.applyTransform r) :=
  Outcome.endsMono (applyTransformEnds r s) (fun _ => id) fun _ => transformedPlaced

theorem resolutionInRange (kind : RequestKind) (x : Single) :
    Outcome.Yields (fun n => 1 ≤ n ∧ n ≤ Attributes.finest) (resolution kind x) := by
  unfold resolution
  dsimp only
  split
  · exact nofun
  · rename_i positive
    split
    · exact nofun
    · exact ⟨Single.roundUpPositive (by simpa using positive), by omega⟩

theorem tessellationParameterEnds (kind : RequestKind) (steps : Nat × Nat) (t : TokenValue)
    (d : Dictionary) : Ends (fun p _ => p.Expected) (fun after _ => Attributes.Fine steps → Attributes.Fine after)
      (tessellationParameter kind steps t) d := by
  refine endsBind (Declaring.resolveEnds t.token d) fun x e _ _ _ => ?_
  split
  · refine endsLiftBind (resolutionInRange _ _) fun n _ within => ?_
    split
    · exact endsPure fun fine => ⟨within, fine.v⟩
    · exact endsPure fun fine => ⟨fine.u, within⟩
    · exact endsLift (x := .error _) (by nofun)
  · exact endsLift (x := .error _) (by nofun)

theorem attributedInRange (kind : RequestKind) (samples : Nat) (s : State) :
    Yields (fun a => ∀ given, s.attributes.InRange samples given → a.InRange samples given)
      (s.attributed kind samples) := by
  unfold attributed
  dsimp only
  split
  · exact yieldsBind (floatListLength _) fun _ length => yieldsPure fun _ before => { before with color := length }
  · exact yieldsBind (floatListLength _) fun _ length => yieldsPure fun _ before => { before with opacity := length }
  · exact yieldsBind basisStep fun _ u => yieldsBind basisStep fun _ v =>
      yieldsPure fun _ before => { before with uStep := u, vStep := v }
  · exact safeBind (safeWord _ _) fun _ => yieldsPure fun _ before => { before with }
  · exact yieldsPure fun _ before => { before with }
  · refine safeBind safeInt fun n => ?_
    split
    · rename_i side
      refine yieldsPure fun _ before => { before with sides := ?_ }
      obtain rfl | rfl := side
      · exact .inl rfl
      · exact .inr rfl
    · exact yieldsThrow (outOfRangeExpected _ _)
  · refine safeBind safeString fun name => safeBind safeFloat fun value => ?_
    split
    · exact yieldsBind (yieldsMk (resolutionInRange _ _)) fun _ within =>
        yieldsPure fun _ before => { before with tessellation := fun _ => ⟨within, within⟩ }
    · exact yieldsPure fun _ => id
  · exact yieldsPure fun _ => id

structure Styled (samples : Nat) (s t : State) : Prop where
  inRange : ∀ given, s.attributes.InRange samples given → t.attributes.InRange samples given
  frames : t.frames = s.frames
  transforms : t.transforms = s.transforms
  only : t = { s with attributes := t.attributes }

theorem applyAttributeEnds (r : Request) (s : State) (d : Dictionary) :
    Ends (fun p _ => p.Expected) (fun t _ => Styled d.colorSamples s t) (s.applyAttribute r) d := by
  unfold applyAttribute
  split
  · refine endsLiftBind (yieldsRead (P := fun _ => True) ?_ r) fun x _ _ => ?_
    · exact safeBind safeString fun _ => safeBind safeTokenList fun _ => safePure _
    · dsimp only
      split
      · -- Along the list: the tessellation is still in range if it was before all of it.
        have loop : Ends (fun p _ => p.Expected)
            (fun steps _ => Attributes.Fine s.attributes.tessellation → Attributes.Fine steps)
            (x.2.foldlM (tessellationParameter r.kind) s.attributes.tessellation) d := by
          refine endsFoldlM (fun e _ steps fine t _ => ?_) id
          exact Declaring.endsMono (tessellationParameterEnds r.kind steps t e) (fun _ _ => id)
            fun _ _ next first => next (fine first)
        refine endsBind loop fun steps _ _ _ fine => ?_
        exact endsPure ⟨fun _ before => { before with tessellation := fine ∘ before.tessellation }, rfl, rfl, rfl⟩
      · exact endsPure ⟨fun _ => id, rfl, rfl, rfl⟩
  · refine endsGet (endsLiftBind (yieldsRead (attributedInRange r.kind d.colorSamples s) r) ?_)
    exact fun a _ inRange => endsPure ⟨inRange, rfl, rfl, rfl⟩

section InRange
variable {samples : Nat} {given : Nat × Nat} {s t : State}

theorem placedInRange (inRange : s.InRange samples given) (placed : Placed s t) : t.InRange samples given :=
  ⟨placed.attributes ▸ inRange.current, placed.frames ▸ inRange.kept⟩

theorem styledInRange (inRange : s.InRange samples given) (styled : Styled samples s t) :
    t.InRange samples given :=
  ⟨styled.inRange given inRange.current, styled.frames ▸ inRange.kept⟩

end InRange

end State
end SceneStream
