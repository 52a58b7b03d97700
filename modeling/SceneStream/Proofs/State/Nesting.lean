import SceneStream.Proofs.State

/-! Blocks in blocks. Whatever is asked for inside of one, its end finds what its beginning kept, and the systems
that were named for it alone are undone; a name that was given for good stays. -/
namespace SceneStream

namespace State
open SceneStream.Geometry

inductive Step where
  | pushAttributes
  | popAttributes
  | pushTransform
  | popTransform
  | transform (r : Request)
  /-- With the declarations that are in force at the time. -/
  | set (r : Request) (d : Dictionary)

/-- A request that is refused changes nothing, so only the end of a block can fail. -/
def take (s : State) : Step → Except Problem State
  | .pushAttributes => .ok s.pushAttributes
  | .popAttributes => s.popAttributes
  | .pushTransform => .ok s.pushTransform
  | .popTransform => s.popTransform
  | .transform r => .ok ((s.applyTransform r).toOption.getD s)
  | .set r d => .ok (((s.applyAttribute r).run d).1.toOption.getD s)

def run (s : State) (l : List Step) : Except Problem State := l.foldlM take s

/-- Every block that begins is ended, and no other. -/
inductive Nested : List Step → Prop where
  | nil : Nested []
  | transform (r : Request) {rest : List Step} (next : Nested rest) : Nested (.transform r :: rest)
  | set (r : Request) (d : Dictionary) {rest : List Step} (next : Nested rest) :
      Nested (.set r d :: rest)
  | attributes {inside rest : List Step} (block : Nested inside) (next : Nested rest) :
      Nested (.pushAttributes :: inside ++ .popAttributes :: rest)
  | transforms {inside rest : List Step} (block : Nested inside) (next : Nested rest) :
      Nested (.pushTransform :: inside ++ .popTransform :: rest)

/-- The name that a step gives to the current system for good. -/
def Step.defines? : Step → Option String
  | transform r => if r.kind = .coordinateSystem then (Args.read r Args.string).toOption else none
  | _ => none

theorem runAppend (s : State) (l m : List Step) : s.run (l ++ m) = s.run l >>= fun t => t.run m :=
  List.foldlM_append

theorem restoreAlike {name : String} {m n : Named (Transform Float)} (alike : m.get? name = n.get? name)
    (l : List (String × Option (Transform Float))) :
    (restore m l).get? name = (restore n l).get? name := by
  induction l generalizing m n with
  | nil => exact alike
  | cons x l ih =>
    obtain ⟨k, hidden⟩ := x
    refine ih ?_
    cases hidden with
    | some t => simp only [Named.getInsert, alike]
    | none => simp only [Named.getErase, alike]

/-- Between the ends of a block: the stacks are as they were, and so is every system once those that were
named for the block are undone; but for `names`. -/
structure Within (names : List String) (s t : State) : Prop where
  frames : t.frames = s.frames
  transforms : t.transforms = s.transforms
  systems : ∃ new, t.localSystems = new ++ s.localSystems ∧
    ∀ name, name ∉ names → (restore t.systems new).get? name = s.systems.get? name

section Within
variable {names later : List String} {s t u : State}

theorem withinSame (frames : t.frames = s.frames) (transforms : t.transforms = s.transforms)
    (localSystems : t.localSystems = s.localSystems)
    (systems : ∀ name, name ∉ names → t.systems.get? name = s.systems.get? name) : Within names s t :=
  ⟨frames, transforms, [], localSystems, systems⟩

theorem withinTrans (first : Within names s t) (next : Within later t u) : Within (names ++ later) s u := by
  obtain ⟨old, kept, before⟩ := first.systems
  obtain ⟨new, added, after⟩ := next.systems
  refine ⟨next.frames.trans first.frames, next.transforms.trans first.transforms, new ++ old, ?_, ?_⟩
  · rw [added, kept, List.append_assoc]
  · intro name apart
    have apart : name ∉ names ∧ name ∉ later := by simpa using apart
    have split : restore u.systems (new ++ old) = restore (restore u.systems new) old := List.foldl_append
    rw [split, restoreAlike (after name apart.2) old, before name apart.1]

theorem transformWithin (r : Request) (s : State) :
    Within (Step.defines? (.transform r)).toList s ((s.applyTransform r).toOption.getD s) := by
  have ends := applyTransformEnds r s
  cases done : s.applyTransform r with
  | error p => exact withinSame rfl rfl rfl fun _ _ => rfl
  | ok t =>
    rw [done] at ends
    cases ends with
    | moved moved =>
      rw [moved]
      exact withinSame rfl rfl rfl fun _ _ => rfl
    | @defined given kind read =>
      refine withinSame rfl rfl rfl fun name apart => ?_
      have differs : name ≠ given := by simpa [Step.defines?, kind, read, Except.toOption] using apart
      exact (Named.getInsert ..).trans (if_neg differs)
    | definedWithin given =>
      refine ⟨rfl, rfl, [(given, s.system? given)], rfl, fun name _ => ?_⟩
      -- What was hidden comes back, or the name is given to nothing again.
      have undone : (restore (s.systems.insert given s.transform) [(given, s.system? given)]).get? name =
          if name = given then s.system? given else s.systems.get? name := by
        unfold restore
        cases s.system? given <;>
          · simp only [List.foldl_cons, List.foldl_nil, Named.getInsert, Named.getErase]
            split <;> rfl
      refine undone.trans ?_
      split
      · rename_i same
        rw [same]
        rfl
      · rfl

theorem setWithin (r : Request) (d : Dictionary) (s : State) :
    Within [] s (((s.applyAttribute r).run d).1.toOption.getD s) := by
  have ends := (applyAttributeEnds r s d).outcome
  cases done : ((s.applyAttribute r).run d).1 with
  | error p => exact withinSame rfl rfl rfl fun _ _ => rfl
  | ok t =>
    rw [done] at ends
    rw [ends.only]
    exact withinSame rfl rfl rfl fun _ _ => rfl

theorem attributesRun {l : List Step} (inside : s.pushAttributes.run l = .ok t)
    (within : Within names s.pushAttributes t) : ∃ systems,
      s.run (.pushAttributes :: l ++ [.popAttributes]) = .ok { s with systems } ∧
      ∀ name, name ∉ names → Named.get? systems name = s.systems.get? name := by
  obtain ⟨new, added, undone⟩ := within.systems
  refine ⟨restore t.systems t.localSystems, ?_, ?_⟩
  · have popped : t.popAttributes = .ok { s with systems := restore t.systems t.localSystems } := by
      have frames : t.frames = ⟨s.attributes, s.transform, s.localSystems⟩ :: s.frames := within.frames
      have transforms : t.transforms = s.transforms := within.transforms
      simp only [popAttributes, frames, transforms]
    have begun : s.run (.pushAttributes :: l) = .ok t := inside
    rw [runAppend, begun]
    exact (congrArg (· >>= pure) popped).trans rfl
  · rw [added, show s.pushAttributes.localSystems = [] from rfl, List.append_nil]
    exact undone

theorem transformsRun {l : List Step} (inside : s.pushTransform.run l = .ok t)
    (within : Within names s.pushTransform t) :
      s.run (.pushTransform :: l ++ [.popTransform]) =
        .ok { t with transform := s.transform, transforms := s.transforms } := by
  have popped : t.popTransform = .ok { t with transform := s.transform, transforms := s.transforms } := by
    have transforms : t.transforms = s.transform :: s.transforms := within.transforms
    simp only [popTransform, transforms]
  have begun : s.run (.pushTransform :: l) = .ok t := inside
  rw [runAppend, begun]
  exact (congrArg (· >>= pure) popped).trans rfl

end Within

theorem nestedWithin {l : List Step} (nested : Nested l) (s : State) :
    ∃ t, s.run l = .ok t ∧ Within (l.filterMap Step.defines?) s t := by
  induction nested generalizing s with
  | nil => exact ⟨s, rfl, withinSame rfl rfl rfl fun _ _ => rfl⟩
  | @transform r rest _ ih =>
    obtain ⟨t, run, within⟩ := ih ((s.applyTransform r).toOption.getD s)
    refine ⟨t, run, ?_⟩
    have both := withinTrans (transformWithin r s) within
    rw [List.filterMap_cons]
    cases given : Step.defines? (.transform r) <;> simpa [given] using both
  | @set r d rest _ ih =>
    obtain ⟨t, run, within⟩ := ih (((s.applyAttribute r).run d).1.toOption.getD s)
    exact ⟨t, run, withinTrans (setWithin r d s) within⟩
  | @attributes inside rest _ _ block next =>
    obtain ⟨u, ran, within⟩ := block s.pushAttributes
    obtain ⟨systems, whole, same⟩ := attributesRun ran within
    obtain ⟨t, run, after⟩ := next { s with systems }
    have here : Within (inside.filterMap Step.defines?) s { s with systems } := withinSame rfl rfl rfl same
    have split : Step.pushAttributes :: inside ++ .popAttributes :: rest =
        (.pushAttributes :: inside ++ [.popAttributes]) ++ rest := by simp
    refine ⟨t, ?_, ?_⟩
    · rw [split, runAppend, whole]
      exact run
    · rw [List.filterMap_append]
      exact withinTrans here after
  | @transforms inside rest _ _ block next =>
    obtain ⟨u, ran, within⟩ := block s.pushTransform
    obtain ⟨t, run, after⟩ := next { u with transform := s.transform, transforms := s.transforms }
    have here : Within (inside.filterMap Step.defines?) s
        { u with transform := s.transform, transforms := s.transforms } :=
      ⟨within.frames, rfl, within.systems⟩
    have split : Step.pushTransform :: inside ++ .popTransform :: rest =
        (.pushTransform :: inside ++ [.popTransform]) ++ rest := by simp
    refine ⟨t, ?_, ?_⟩
    · rw [split, runAppend, transformsRun ran within]
      exact run
    · rw [List.filterMap_append]
      exact withinTrans here after

/-- A block of attributes gives back all but the systems, and of those only the names that were given for good
inside of it stand for something else. A block of transforms gives back the transform and both stacks. -/
theorem blocksRestore {l : List Step} (nested : Nested l) (s : State) :
    (∃ t, s.run (.pushAttributes :: l ++ [.popAttributes]) = .ok t ∧ t = { s with systems := t.systems } ∧
      ∀ name, name ∉ l.filterMap Step.defines? → t.system? name = s.system? name) ∧
    ∃ t, s.run (.pushTransform :: l ++ [.popTransform]) = .ok t ∧
      t.transform = s.transform ∧ t.frames = s.frames ∧ t.transforms = s.transforms := by
  constructor
  · obtain ⟨t, inside, within⟩ := nestedWithin nested s.pushAttributes
    obtain ⟨systems, run, same⟩ := attributesRun inside within
    exact ⟨{ s with systems }, run, rfl, same⟩
  · obtain ⟨t, inside, within⟩ := nestedWithin nested s.pushTransform
    exact ⟨_, transformsRun inside within, rfl, within.frames, rfl⟩

/-- A room named twice for the block, a door named for good in a block of its own, and a move without its vector. -/
def furnished : List Step := [
  .transform ⟨.scopedCoordinateSystem, 1, [.of (.strings ["room"]) false]⟩,
  .transform ⟨.scopedCoordinateSystem, 2, [.of (.strings ["room"]) false]⟩,
  .pushAttributes,
  .transform ⟨.coordinateSystem, 3, [.of (.strings ["door"]) false]⟩,
  .set ⟨.sides, 4, [.of (.integers [1]) false]⟩ .empty,
  .pushTransform,
  .transform ⟨.translate, 5, []⟩,
  .popTransform,
  .popAttributes]

theorem furnishedRestores : Nested furnished ∧
    (∃ t, (initial 3 (16, 16)).run (.pushAttributes :: furnished ++ [.popAttributes]) = .ok t ∧
      t.system? "room" = none) ∧
    ∃ t, (initial 3 (16, 16)).run (.pushTransform :: furnished ++ [.popTransform]) = .ok t ∧
      t.frames = [] ∧ t.transforms = [] := by
  have nested : Nested furnished := .transform _ <| .transform _ <| .attributes
    (.transform _ <| .set _ _ <| .transforms (.transform _ .nil) .nil) .nil
  obtain ⟨⟨t, run, -, same⟩, u, ran, -, frames, transforms⟩ := blocksRestore nested (initial 3 (16, 16))
  exact ⟨nested, ⟨t, run, same "room" (by decide +kernel)⟩, u, ran, frames, transforms⟩

end State
end SceneStream
