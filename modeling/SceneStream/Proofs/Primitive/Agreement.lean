import SceneStream.Proofs.Primitive.Selection
import SceneStream.Proofs.Variable.Entered

/-! One polygon can be asked for in several ways, and so can a mesh of faces with one loop each. What becomes of
them is decided by the faces and the variables alone: the kind of a request is only put on the surfaces and into
the texts of problems. -/
namespace SceneStream
open SceneStream.Args SceneStream.Geometry

/-! Outcomes over all kinds of primitives. -/

/-- The outcome is one and the same for every kind, but for the kind that `put` puts in. -/
def Indifferent {α β : Type} (put : RequestKind → α → β) (x : RequestKind → Outcome β) : Prop :=
  (∃ a, ∀ k, x k = .ok (put k a)) ∨ ∀ k, ∃ p, x k = .error p

namespace Indifferent
variable {α β γ δ : Type} {put : RequestKind → α → β} {other : RequestKind → γ → δ} {x : RequestKind → Outcome β}

theorem same (x : Outcome α) : Indifferent (fun _ a => a) fun _ => x := by
  cases x with
  | ok a => exact .inl ⟨a, fun _ => rfl⟩
  | error p => exact .inr fun _ => ⟨p, rfl⟩

theorem mapError {ε : Type} (x : Except ε α) (problem : RequestKind → ε → Problem) :
    Indifferent (fun _ a => a) fun k => x.mapError (problem k) := by
  cases x with
  | ok a => exact .inl ⟨a, fun _ => rfl⟩
  | error e => exact .inr fun k => ⟨problem k e, rfl⟩

theorem bind (first : Indifferent put x) {f : RequestKind → β → Outcome δ}
    (next : ∀ a, Indifferent other fun k => f k (put k a)) : Indifferent other fun k => x k >>= f k := by
  rcases first with ⟨a, all⟩ | none
  · simp only [all]
    exact next a
  · refine .inr fun k => ?_
    obtain ⟨p, failed⟩ := none k
    exact ⟨p, congrArg (· >>= f k) failed⟩

theorem map (first : Indifferent put x) (f : RequestKind → β → δ) :
    Indifferent (fun k a => f k (put k a)) fun k => (x k).map (f k) := by
  rcases first with ⟨a, all⟩ | none
  · exact .inl ⟨a, fun k => congrArg (Except.map (f k)) (all k)⟩
  · refine .inr fun k => ?_
    obtain ⟨p, failed⟩ := none k
    exact ⟨p, congrArg (Except.map (f k)) failed⟩

theorem mapM {f : RequestKind → γ → Outcome β} {l : List γ} (each : ∀ c ∈ l, Indifferent put (f · c)) :
    Indifferent (fun k => List.map (put k)) fun k => l.mapM (f k) := by
  induction l with
  | nil => exact .inl ⟨[], fun _ => rfl⟩
  | cons c l ih =>
    obtain ⟨first, rest⟩ := List.forall_mem_cons.mp each
    simp only [List.mapM_cons]
    refine bind first fun a => bind (ih rest) fun as => ?_
    exact .inl ⟨a :: as, fun _ => rfl⟩

end Indifferent

def Surface.as (k : RequestKind) (t : Surface) : Surface := { t with primitive := k }

namespace Primitive

theorem homogeneousIndifferent (vars : Variables) :
    Indifferent (fun _ l => l) fun k => homogeneous k vars := by
  unfold homogeneous
  split
  · exact .same (.ok _)
  · exact .same (.ok _)
  · exact .inr fun k => ⟨_, rfl⟩

theorem positionsIndifferent (vars : Variables) : Indifferent (fun _ l => l) fun k => positions k vars := by
  refine .bind (homogeneousIndifferent vars) fun points => ?_
  split
  · exact .inr fun k => ⟨_, rfl⟩
  · exact .same (.ok _)

theorem carryAs (vars : Variables) (spread : Spread) (t : Surface) (k : RequestKind) :
    carry vars spread (t.as k) = (carry vars spread t).map (·.as k) := by
  unfold carry
  generalize (List.filterMapM _ _ : Except Problem (List (String × SurfaceVariable))) = travelling
  cases travelling <;> rfl

theorem surfaceIndifferent (vars : Variables) (tolerance : Float) (f : Face) :
    Indifferent Surface.as fun k => f.surface k vars tolerance := by
  refine .bind (positionsIndifferent _) fun points => ?_
  refine .bind (.mapError (triangulate tolerance points f.loops) _) fun triangles => ?_
  refine .bind (.same (f.normals _ points)) fun normals => ?_
  let bare (k : RequestKind) : Surface :=
    Surface.ofTriangles k (points.map Surface.stored) (triangles.flatMap Triangle.toList)
  have carried (k : RequestKind) := carryAs (vars.select f.selection) (fun v => .ok v.doubles)
    { bare .polygon with normals } k
  exact (funext carried).symm ▸ Indifferent.map (.same _) Surface.as

theorem facesIndifferent (vars : Variables) (tolerance : Float) (l : List Face) :
    Indifferent (fun k s => Outcome.surfaces (List.map (Surface.as k) s)) fun k => faces k vars tolerance l :=
  .map (.mapM fun f _ => surfaceIndifferent vars tolerance f) fun _ => Outcome.surfaces

theorem facesEach {k : RequestKind} {vars : Variables} {tolerance : Float} {l : List Face} {surfaces : List Surface}
    (made : faces k vars tolerance l = .ok (.surfaces surfaces)) : surfaces.length = l.length := by
  obtain ⟨r, each, same⟩ := Outcome.okMap made
  cases same
  simpa using (congrArg List.length (Outcome.mapMOk.mp each)).symm

/-! Faces with one loop each. -/

theorem splitLength {index offset : Nat} {loops sizes verts : List Nat} {fs : List Face}
    (split : Face.split index offset loops sizes verts = .ok fs) : fs.length = loops.length := by
  simpa using congrArg List.length (splitCovers split).1

theorem splitSucceeds {sizes verts : List Nat} (sum : sizes.sum = verts.length) :
    ∃ fs, Face.split 0 0 (sizes.map fun _ => 1) sizes verts = .ok fs := by
  have cuts : Outcome.Ends _ _ (Face.split 0 0 (sizes.map fun _ => 1) sizes verts) :=
    Face.splitEnds (by simp [List.map_const']) sum
  cases split : Face.split 0 0 (sizes.map fun _ => 1) sizes verts with
  | ok fs => exact ⟨fs, rfl⟩
  | error p =>
    rw [split] at cuts
    exact cuts.elim

theorem simpleFacesAgree (vars : Variables) (tolerance : Float) (sizes verts : List Nat) :
    (∃ l : List Surface, l.length = sizes.length ∧
      ∀ k, simpleFaces k vars tolerance sizes verts = .ok (.surfaces (l.map (Surface.as k)))) ∨
    ∀ k, ∃ p, simpleFaces k vars tolerance sizes verts = .error p := by
  unfold simpleFaces simpleSplit
  by_cases sum : sizes.sum = verts.length
  · obtain ⟨fs, split⟩ := splitSucceeds sum
    simp only [sum, ne_eq, not_true_eq_false, if_false, split]
    refine (facesIndifferent vars tolerance fs).imp_left fun ⟨l, all⟩ => ⟨l, ?_, all⟩
    have each := facesEach (all .polygon)
    rw [List.length_map, splitLength split, List.length_map] at each
    exact each
  · simp only [sum, ne_eq, not_false_eq_true, if_true]
    exact .inr fun k => ⟨_, rfl⟩

def hull (s : Setting) (k : RequestKind) (sizes verts : List Nat) (list : List TokenValue) : Declaring Outcome := do
  let vars ← Variables.bind (.pointsPolygons sizes verts) list
  Declaring.lift (simpleFaces k vars s.tolerance sizes verts)

section Hull
variable (s : Setting) (d : Dictionary) (sizes verts : List Nat) (list : List TokenValue)

theorem hullAgrees :
    (∃ (l : List Surface) (e : Dictionary), l.length = sizes.length ∧
      ∀ k, (hull s k sizes verts list).run d = (.ok (.surfaces (l.map (Surface.as k))), e)) ∨
    ∀ k, ∃ p, ((hull s k sizes verts list).run d).1 = .error p := by
  simp only [hull, Work.runBind]
  cases (Variables.bind (.pointsPolygons sizes verts) list).run d with
  | mk x e =>
    cases x with
    | error p => exact .inr fun _ => ⟨p, rfl⟩
    | ok vars =>
      rcases simpleFacesAgree vars s.tolerance sizes verts with ⟨l, length, all⟩ | none
      · exact .inl ⟨l, e, length, fun k => congrArg (·, e) (all k)⟩
      · exact .inr none

theorem hullUnfit (k : RequestKind) (unfit : sizes.sum ≠ verts.length) :
    ∃ p, ((hull s k sizes verts list).run d).1 = .error p := by
  simp only [hull, Work.runBind]
  cases (Variables.bind (.pointsPolygons sizes verts) list).run d with
  | mk x e =>
    cases x with
    | error p => exact ⟨p, rfl⟩
    | ok vars =>
      refine ⟨inconsistent k s!"{verts.length} vertex indices for {sizes.sum} face corners", ?_⟩
      show simpleFaces k vars s.tolerance sizes verts = _
      rw [simpleFaces, simpleSplit, if_pos unfit]
      rfl

def Follows (r : Request) : Prop :=
  (tessellate s r).run d = (hull s r.kind sizes verts list).run d ∨
  (∃ p, ((tessellate s r).run d).1 = .error p) ∧ ∃ p, ((hull s r.kind sizes verts list).run d).1 = .error p

/-- If one of the requests is made into surfaces, all are, into the same ones but for the kind, and they leave
the same declarations. -/
def Agree (n : Nat) (asks : Request → Prop) : Prop :=
  (∃ (l : List Surface) (e : Dictionary), l.length = n ∧
    ∀ r, asks r → (tessellate s r).run d = (.ok (.surfaces (l.map (Surface.as r.kind))), e)) ∨
  ∀ r, asks r → ∃ p, ((tessellate s r).run d).1 = .error p

theorem followsAgree {asks : Request → Prop} (follow : ∀ r, asks r → Follows s d sizes verts list r) :
    Agree s d sizes.length asks := by
  rcases hullAgrees s d sizes verts list with ⟨l, e, length, all⟩ | none
  · refine .inl ⟨l, e, length, fun r asked => ?_⟩
    rcases follow r asked with same | ⟨-, p, failed⟩
    · exact same.trans (all r.kind)
    · rw [all r.kind] at failed
      cases failed
  · refine .inr fun r asked => ?_
    rcases follow r asked with same | ⟨failed, -⟩
    · rw [same]
      exact none r.kind
    · exact failed

end Hull

/-! How the requests are written. -/

def Counts (p : Parameter) (l : List Nat) : Prop :=
  ∃ ns, p.values.integers? = some ns ∧ ns.map Int32.toInt = l.map Int.ofNat

/-- A list of tokens, each as a lone text before its value. -/
def written (list : List TokenValue) : List Parameter :=
  list.flatMap fun t => [.of (.strings [t.token]) false, t.value]

section Read
variable {kind : RequestKind} {list : List TokenValue} {rest : List Parameter}

theorem countsRead {ns : List Int32} {l : List Nat} (same : ns.map Int32.toInt = l.map Int.ofNat) :
    counts kind ns = .ok l := by
  induction ns generalizing l with
  | nil =>
    cases l with
    | nil => rfl
    | cons n l => cases same
  | cons i ns ih =>
    cases l with
    | nil => cases same
    | cons n l =>
      obtain ⟨first, rest⟩ := List.cons_eq_cons.mp same
      have natural : ¬ i < 0 := by
        rw [Int32.lt_iff_toInt_lt, first]
        exact Int.not_lt.mpr (Int.natCast_nonneg n)
      rw [counts, if_neg natural, ih rest, first]
      rfl

theorem pairsWritten (kind : RequestKind) (list : List TokenValue) : pairs kind (written list) = .ok list := by
  induction list with
  | nil => rfl
  | cons t list ih =>
    show (pairs kind (written list)).map (t :: ·) = _
    rw [ih]
    rfl

theorem countArrayRun {p : Parameter} {l : List Nat} (holds : Counts p l) :
    countArray.run ⟨kind, p :: rest, 0⟩ = (.ok l, ⟨kind, rest, 0⟩) := by
  obtain ⟨ns, integers, same⟩ := holds
  have array : intArray.run ⟨kind, p :: rest, 0⟩ = (.ok ns, ⟨kind, rest, 0⟩) := by
    simp only [intArray, whole, Work.runBind, Work.runGet]
    simp [peek, integers]
    rfl
  simp only [countArray, Work.runBind, array, Work.runGet]
  exact congrArg (·, _) (countsRead same)

theorem stringRun (kind : RequestKind) (rest : List Parameter) {p : Parameter} (text : p.string?.isSome) :
    ∃ x, Args.string.run ⟨kind, p :: rest, 0⟩ = (.ok x, ⟨kind, rest, 0⟩) := by
  obtain ⟨x, text⟩ := Option.isSome_iff_exists.mp text
  refine ⟨x, ?_⟩
  simp only [Args.string, whole, Work.runBind, Work.runGet]
  simp [peek, text]
  rfl

theorem tokenListRun : tokenList.run ⟨kind, written list, 0⟩ = (.ok list, ⟨kind, written list, 0⟩) := by
  simp only [tokenList, Work.runBind, Work.runGet]
  exact congrArg (·, _) (pairsWritten kind list)

theorem tagsRun : tags.run ⟨kind, written list, 0⟩ = (.ok ⟨⟩, ⟨kind, written list, 0⟩) := by
  cases list <;> rfl

theorem facesArgsRun {p q : Parameter} {sizes verts : List Nat} (first : Counts p sizes) (second : Counts q verts) :
    facesArgs.run ⟨kind, p :: q :: written list, 0⟩ = (.ok (sizes, verts, list), ⟨kind, written list, 0⟩) := by
  simp only [facesArgs, Work.runBind, countArrayRun first, countArrayRun second, tokenListRun, Work.runPure]

theorem facesRead (line : Nat) {p q : Parameter} {sizes verts : List Nat} (first : Counts p sizes)
    (second : Counts q verts) :
    Args.read ⟨kind, line, p :: q :: written list⟩ facesArgs = .ok (sizes, verts, list) :=
  congrArg Prod.fst (facesArgsRun first second)

theorem loopedRead (line : Nat) {loops p q : Parameter} {each sizes verts : List Nat} (one : Counts loops each)
    (first : Counts p sizes) (second : Counts q verts) :
    Args.read ⟨kind, line, loops :: p :: q :: written list⟩ loopedArgs = .ok (each, sizes, verts, list) := by
  simp only [Args.read, Args.of, loopedArgs, Work.runBind, countArrayRun one, facesArgsRun first second, Work.runPure]

theorem subdivisionRead (line : Nat) {scheme p q : Parameter} {sizes verts : List Nat}
    (text : scheme.string?.isSome) (first : Counts p sizes) (second : Counts q verts) :
    Args.read ⟨kind, line, scheme :: p :: q :: written list⟩ subdivisionArgs = .ok (sizes, verts, list) := by
  obtain ⟨x, given⟩ := stringRun kind (p :: q :: written list) text
  simp only [Args.read, Args.of, subdivisionArgs, Work.runBind, given, countArrayRun first, countArrayRun second,
    tagsRun, tokenListRun, Work.runPure]

end Read

/-! Requests for a mesh of faces with one loop each. -/

inductive Meshed (sizes verts : List Nat) (list : List TokenValue) : Request → Prop where
  | pointsPolygons (line : Nat) {p q : Parameter} (first : Counts p sizes) (second : Counts q verts) :
      Meshed sizes verts list ⟨.pointsPolygons, line, p :: q :: written list⟩
  | pointsGeneralPolygons (line : Nat) {loops p q : Parameter} (one : Counts loops (sizes.map fun _ => 1))
      (first : Counts p sizes) (second : Counts q verts) :
      Meshed sizes verts list ⟨.pointsGeneralPolygons, line, loops :: p :: q :: written list⟩
  | subdivisionMesh (line : Nat) {scheme p q : Parameter} (text : scheme.string?.isSome)
      (first : Counts p sizes) (second : Counts q verts) :
      Meshed sizes verts list ⟨.subdivisionMesh, line, scheme :: p :: q :: written list⟩

section Follows
variable {s : Setting} {r : Request} {sizes verts : List Nat} {list : List TokenValue}

theorem liftOk {α β : Type} (a : α) (f : α → Declaring β) : Declaring.lift (.ok a) >>= f = f a := rfl

theorem pointsPolygonsHull (read : Args.read r facesArgs = .ok (sizes, verts, list)) :
    pointsPolygons s r = hull s r.kind sizes verts list := by
  rw [pointsPolygons, read, liftOk]
  rfl

theorem subdivisionMeshHull (read : Args.read r subdivisionArgs = .ok (sizes, verts, list)) :
    subdivisionMesh s r = hull s r.kind sizes verts list := by
  rw [subdivisionMesh, read, liftOk]
  rfl

theorem pointsGeneralPolygonsHull (read : Args.read r loopedArgs = .ok (sizes.map (fun _ => 1), sizes, verts, list))
    (sum : sizes.sum = verts.length) : pointsGeneralPolygons s r = hull s r.kind sizes verts list := by
  have fit : loopsFit r.kind (sizes.map fun _ => 1) sizes verts = .ok () := by
    simp [loopsFit, List.map_const', sum]
    rfl
  have counts : ValueCounts.pointsGeneralPolygons (sizes.map fun _ => 1) sizes verts =
      .pointsPolygons sizes verts := by
    rw [ValueCounts.pointsGeneralPolygons, List.length_map]
    rfl
  rw [pointsGeneralPolygons, read, liftOk]
  dsimp only
  rw [fit, liftOk, counts, hull]
  simp only [simpleFaces, simpleSplit, sum, ne_eq, not_true_eq_false, if_false]

theorem pointsGeneralPolygonsUnfit
    (read : Args.read r loopedArgs = .ok (sizes.map (fun _ => 1), sizes, verts, list))
    (unfit : sizes.sum ≠ verts.length) (d : Dictionary) :
    ∃ p, ((pointsGeneralPolygons s r).run d).1 = .error p := by
  have fails : loopsFit r.kind (sizes.map fun _ => 1) sizes verts =
      .error (inconsistent r.kind s!"{verts.length} vertex indices for {sizes.sum} loop corners") := by
    simp [loopsFit, List.map_const', unfit]
    rfl
  rw [pointsGeneralPolygons, read, liftOk]
  dsimp only
  rw [fails]
  exact ⟨_, rfl⟩

theorem sameFollows (d : Dictionary) (same : tessellate s r = hull s r.kind sizes verts list) :
    Follows s d sizes verts list r := .inl (by rw [same])

theorem meshedFollows (asked : Meshed sizes verts list r) (d : Dictionary) : Follows s d sizes verts list r := by
  cases asked with
  | pointsPolygons line first second =>
    exact sameFollows d (pointsPolygonsHull (facesRead line first second))
  | subdivisionMesh line text first second =>
    exact sameFollows d (subdivisionMeshHull (subdivisionRead line text first second))
  | pointsGeneralPolygons line one first second =>
    have read : Args.read ⟨.pointsGeneralPolygons, line, _⟩ loopedArgs = .ok (_, sizes, verts, list) :=
      loopedRead line one first second
    by_cases sum : sizes.sum = verts.length
    · exact sameFollows d (pointsGeneralPolygonsHull read sum)
    · exact .inr ⟨pointsGeneralPolygonsUnfit read sum d, hullUnfit s d sizes verts list _ sum⟩

end Follows

/-! Requests for one polygon. -/

/-- The points that a list gives: those of its first token that stands for positions. -/
def pointsGiven (d : Dictionary) : List TokenValue → Nat
  | [] => 0
  | t :: rest => match d.name? t.token with
    | some "P" => t.value.length / 3
    | some "Pw" => t.value.length / 4
    | _ => pointsGiven d rest

theorem pointsGrow {d e : Dictionary} (grows : d.Grows e) (list : List TokenValue) :
    pointsGiven e list = pointsGiven d list := by
  induction list with
  | nil => rfl
  | cons t list ih => simp only [pointsGiven, Dictionary.name?, Dictionary.meaningGrows grows, ih]

theorem pointCountNext (d : Dictionary) (t : TokenValue) (list : List TokenValue) :
    (pointCount (t :: list)).run d = match d.name? t.token with
      | some "P" => (.ok (t.value.length / 3), d.meet t)
      | some "Pw" => (.ok (t.value.length / 4), d.meet t)
      | _ => (pointCount list).run (d.meet t) := by
  simp only [pointCount, Dictionary.name?, Dictionary.meaning, Dictionary.meet, Work.runBind, Work.runGet]
  cases d.resolve t.token with
  | error p => rfl
  | ok y =>
    obtain ⟨e, n, x⟩ := y
    simp only [Except.map, Except.toOption, Option.map]
    split
    · rename_i affine
      simp only [affine]
      rfl
    · rename_i weighted
      simp only [weighted]
      rfl
    · rename_i affine weighted
      split
      · exact absurd (Option.some.inj ‹_›) affine
      · exact absurd (Option.some.inj ‹_›) weighted
      · rfl

theorem pointCountRun (d : Dictionary) (list : List TokenValue) : ∃ before after, list = before ++ after ∧
    (pointCount list).run d = (.ok (pointsGiven d list), d.meetAll before) := by
  induction list generalizing d with
  | nil => exact ⟨[], [], rfl, rfl⟩
  | cons t list ih =>
    rw [pointCountNext, pointsGiven]
    split
    · exact ⟨[t], list, rfl, rfl⟩
    · exact ⟨[t], list, rfl, rfl⟩
    · obtain ⟨before, after, parts, later⟩ := ih (d.meet t)
      rw [pointsGrow (Dictionary.meetGrows d t)] at later
      exact ⟨t :: before, after, congrArg (t :: ·) parts, later⟩

example : pointsGiven .initial [⟨"Cs", .of (.integers [1, 1, 1]) true⟩,
    ⟨"P", .of (.integers [0, 0, 0, 1, 0, 0, 0, 1, 0]) true⟩] = 3 := by decide +kernel

inductive Lone (n : Nat) (list : List TokenValue) : Request → Prop where
  | polygon (line : Nat) : Lone n list ⟨.polygon, line, written list⟩
  | generalPolygon (line : Nat) {p : Parameter} (size : Counts p [n]) :
      Lone n list ⟨.generalPolygon, line, p :: written list⟩
  | pointsPolygons (line : Nat) {p q : Parameter} (size : Counts p [n]) (corners : Counts q (List.range n)) :
      Lone n list ⟨.pointsPolygons, line, p :: q :: written list⟩
  | pointsGeneralPolygons (line : Nat) {loops p q : Parameter} (one : Counts loops [1]) (size : Counts p [n])
      (corners : Counts q (List.range n)) :
      Lone n list ⟨.pointsGeneralPolygons, line, loops :: p :: q :: written list⟩

theorem indexedRange (n : Nat) : ValueCounts.indexed (List.range n) = n := by
  induction n with
  | zero => rfl
  | succ n ih =>
    rw [ValueCounts.indexed, List.range_succ, List.foldl_append]
    show max (ValueCounts.indexed (List.range n)) (n + 1) = n + 1
    rw [ih]
    exact Nat.max_eq_right (Nat.le_succ n)

theorem loneHull (s : Setting) (k : RequestKind) (n : Nat) (list : List TokenValue) :
    hull s k [n] (List.range n) list = (do
      let vars ← Variables.bind (.polygon n) list
      Declaring.lift (faces k vars s.tolerance [⟨0, [n], List.range n, 0⟩])) := by
  have counts : ValueCounts.pointsPolygons [n] (List.range n) = .polygon n := by
    simp [ValueCounts.pointsPolygons, ValueCounts.faces, indexedRange, ValueCounts.polygon, ValueCounts.single]
  have sum : [n].sum = n := by simp
  have corners : Part.leading [n].sum (List.range n) = .ok (List.range n) := by
    rw [sum, Part.leadingInside (by simp), List.take_of_length_le (by simp)]
  have split : simpleSplit k [n] (List.range n) = .ok [⟨0, [n], List.range n, 0⟩] := by
    rw [simpleSplit, if_neg (by simp)]
    show (Part.leading [n].sum (List.range n) >>= fun corners => _) = _
    rw [corners]
    rfl
  rw [hull, counts]
  simp only [simpleFaces, split]
  rfl

theorem polygonFollows (s : Setting) (d : Dictionary) (line : Nat) (list : List TokenValue) :
    Follows s d [pointsGiven d list] (List.range (pointsGiven d list)) list ⟨.polygon, line, written list⟩ := by
  obtain ⟨before, after, parts, counted⟩ := pointCountRun d list
  generalize pointsGiven d list = n at counted ⊢
  have read : Args.read ⟨.polygon, line, written list⟩ tokenList = .ok list := congrArg Prod.fst tokenListRun
  have made : (tessellate s ⟨.polygon, line, written list⟩).run d =
      (hull s .polygon [n] (List.range n) list).run (d.meetAll before) := by
    show (polygon s _).run d = _
    rw [polygon, read, liftOk, Work.runBind, counted, loneHull]
  obtain ⟨same, whole⟩ := Variables.bindMet (.pointsPolygons [n] (List.range n)) d before after
  rw [← parts] at same whole
  unfold Follows
  rw [made]
  simp only [hull, Work.runBind]
  cases run : (Variables.bind (.pointsPolygons [n] (List.range n)) list).run d with
  | mk x e =>
    cases x with
    | ok vars =>
      rw [whole vars (congrArg Prod.fst run), run]
      exact .inl rfl
    | error p =>
      rw [run] at same
      cases other : (Variables.bind (.pointsPolygons [n] (List.range n)) list).run (d.meetAll before) with
      | mk y f =>
        rw [other] at same
        cases same
        exact .inr ⟨⟨p, rfl⟩, p, rfl⟩

theorem generalPolygonHull (s : Setting) (line : Nat) {p : Parameter} {n : Nat} {list : List TokenValue}
    (size : Counts p [n]) :
    tessellate s ⟨.generalPolygon, line, p :: written list⟩ =
      hull s .generalPolygon [n] (List.range n) list := by
  have read : Args.read ⟨.generalPolygon, line, p :: written list⟩
      (do return (← countArray, ← tokenList)) = .ok ([n], list) := by
    simp only [Args.read, Args.of, Work.runBind, countArrayRun size, tokenListRun, Work.runPure]
  show generalPolygon s _ = _
  rw [generalPolygon, read, liftOk, loneHull]
  simp [ValueCounts.generalPolygon]

theorem loneFollows {s : Setting} {d : Dictionary} {list : List TokenValue} {r : Request}
    (asked : Lone (pointsGiven d list) list r) :
    Follows s d [pointsGiven d list] (List.range (pointsGiven d list)) list r := by
  cases asked with
  | polygon line => exact polygonFollows s d line list
  | generalPolygon line size => exact sameFollows d (generalPolygonHull s line size)
  | pointsPolygons line size corners => exact meshedFollows (.pointsPolygons line size corners) d
  | pointsGeneralPolygons line one size corners =>
    exact meshedFollows (.pointsGeneralPolygons line one size corners) d

/-- The requests for one polygon agree, and so do those for a mesh of faces with one loop each. -/
theorem polygonsAgree (s : Setting) (d : Dictionary) (list : List TokenValue) :
    Agree s d 1 (Lone (pointsGiven d list) list) ∧
    ∀ sizes verts, Agree s d sizes.length (Meshed sizes verts list) := by
  refine ⟨?_, fun sizes verts => followsAgree s d sizes verts list fun r asked => meshedFollows asked d⟩
  exact followsAgree s d [pointsGiven d list] _ list fun r asked => loneFollows asked

end Primitive
end SceneStream
