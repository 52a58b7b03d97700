import SceneStream.Proofs.Surface.Sound
import SceneStream.Proofs.Variable
import SceneStream.Primitive.Basic

/-! What primitives have in common: problems that the request is to blame for, and variables that fit
the surfaces they travel on. -/
namespace SceneStream
open SceneStream.Work SceneStream.Args SceneStream.Geometry

namespace Part
variable {α : Type}

theorem itemInside {l : Array α} {i : Nat} (inside : i < l.size) : item l i = .ok l[i] := by
  simp [item, inside]

theorem itemCrash {l : Array α} {i : Nat} {p : Problem} (failed : item l i = .error p) :
    p.isCrash = true := by
  unfold item at failed
  split at failed
  · cases failed
  · cases failed
    rfl

theorem leadingInside {l : List α} {n : Nat} (inside : n ≤ l.length) :
    leading n l = .ok (l.take n) := if_pos inside

end Part

namespace Primitive
open SceneStream.Variables (Bound Fit)

theorem rejectExpected {fault : ProblemKind} (mild : ¬ fault.Unexpected) (kind : RequestKind)
    (message : String) : (reject kind fault message).Expected := mild

theorem gridFaultKind (f : GridFault) : ¬ f.kind.Unexpected := by cases f <;> nofun

theorem patchFaultKind (f : PatchFault) : ¬ f.kind.Unexpected := by
  cases f with
  | grid f => exact gridFaultKind f
  | _ => nofun

theorem safePositive (what : String) : Safe (positive what) := by
  refine safeBind safeGet fun a => safeBind safeInt fun n => ?_
  split
  · exact safePure _
  · exact safeThrow (by nofun)

theorem pointCountEnds (list : List TokenValue) (d : Dictionary) :
    Declaring.Ends (fun p _ => p.Expected) (fun _ _ => True) (pointCount list) d := by
  induction list generalizing d with
  | nil => exact Declaring.endsPure trivial
  | cons t rest ih =>
    refine Declaring.endsGet ?_
    split
    · exact ih d
    · rename_i e n x found
      refine Declaring.endsBind (P := fun _ _ => True)
        (Declaring.endsRun rfl (Dictionary.resolveOk found).1 trivial) fun _ f _ _ _ => ?_
      split
      · exact Declaring.endsPure trivial
      · exact Declaring.endsPure trivial
      · exact ih f

theorem safeHomogeneous (kind : RequestKind) (vars : Variables) :
    Outcome.Safe (homogeneous kind vars) := by
  unfold homogeneous
  split
  · exact trivial
  · exact trivial
  · exact nofun

theorem safePositions (kind : RequestKind) (vars : Variables) :
    Outcome.Safe (positions kind vars) := by
  refine Outcome.endsBind (safeHomogeneous kind vars) fun points _ => ?_
  split
  · exact nofun
  · exact trivial

theorem triplesLength {β : Type} (l : List β) : (triples l).length = l.length / 3 := by
  fun_induction triples l with
  | case1 x y z rest ih =>
    simp only [List.length_cons, ih]
    omega
  | case2 l short =>
    match l, short with
    | [], _ | [_], _ | [_, _], _ => simp
    | x :: y :: z :: rest, short => exact absurd rfl (short x y z rest)

theorem quadruplesLength {β : Type} (l : List β) : (quadruples l).length = l.length / 4 := by
  fun_induction quadruples l with
  | case1 x y z w rest ih =>
    simp only [List.length_cons, ih]
    omega
  | case2 l short =>
    match l, short with
    | [], _ | [_], _ | [_, _], _ | [_, _, _], _ => simp
    | x :: y :: z :: w :: rest, short => exact absurd rfl (short x y z w rest)

theorem ofWidthOk {vars : Variables} {name : String} {width : Nat} {v : Variable}
    (found : ofWidth? vars name width = some v) : (name, v) ∈ vars ∧ v.width = width := by
  obtain ⟨get, same⟩ := Option.filter_eq_some_iff.mp found
  exact ⟨Named.memGet get, by simpa using same⟩

theorem ofWidthSelect (vars : Variables) (s : FaceSelection) (name : String) (width : Nat) :
    ofWidth? (vars.select s) name width = (ofWidth? vars name width).map (·.select s) := by
  unfold ofWidth? Variables.select
  rw [Named.getMap vars (fun v => v.select s)]
  cases vars.get? name with
  | none => rfl
  | some v =>
    simp only [Option.map_some, Option.filter_some, Variable.select]
    split <;> rfl

def Wholes (vars : Variables) : Prop :=
  ∀ y ∈ vars, y.2.storage.isWhole = true → y.2.values.length = y.2.width

theorem fitWholes {counts : ValueCounts} {vars : Variables} (fit : Fit counts vars)
    (one : counts.uniform = 1) : Wholes vars := by
  intro y mem whole
  have length := (fit y mem).length
  cases storage : y.2.storage with
  | constant | uniform =>
    rw [storage] at length
    simpa [ValueCounts.get, one] using length
  | varying | vertex | faceVarying | faceVertex =>
    rw [storage] at whole
    cases whole

theorem selectWholes {counts : ValueCounts} {vars : Variables} (fit : Fit counts vars)
    {s : FaceSelection} (inside : s.uniform < counts.uniform) : Wholes (vars.select s) := by
  intro y mem whole
  obtain ⟨v, bound, same⟩ := Variables.selectFrom mem
  rw [same] at whole ⊢
  exact Variable.selectWhole (fit _ bound) inside whole

def Carries (vars : Variables) (s t : Surface) : Prop :=
  ∃ travelling, t = { s with vars := travelling } ∧ ((∀ y ∈ vars, 0 < y.2.width) →
    ∀ z ∈ travelling, z.2.count = if z.2.perVertex then s.positions.length else 1)

def Spreads (v : Variable) : Prop := v.storage.isWhole = false ∧ v.kind ≠ .string

theorem carriedEnds {E : Problem → Prop} {spread : Spread} {v : Variable} {n : Nat}
    (whole : v.storage.isWhole = true → v.values.length = v.width)
    (spreads : Spreads v → Outcome.Ends E (fun l => l.length = n * v.width) (spread v)) :
    Outcome.Ends E (fun c => ∀ w ∈ c, w.width = v.width ∧
      w.values.length = (if w.perVertex then n else 1) * w.width) (carried spread v) := by
  have entire (known : v.storage.isWhole = true) : ∀ w ∈ some
      (⟨v.kind, v.width, false, v.values⟩ : SurfaceVariable), w.width = v.width ∧
        w.values.length = (if w.perVertex then n else 1) * w.width := by
    intro w mem
    cases mem
    exact ⟨rfl, by simpa using whole known⟩
  unfold carried
  split
  · rename_i storage
    exact entire (by rw [storage]; rfl)
  · rename_i storage
    exact entire (by rw [storage]; rfl)
  · rename_i notConstant notUniform
    have part : v.storage.isWhole = false := by
      cases storage : v.storage <;> first | rfl | exact absurd storage ‹_›
    split
    · exact nofun
    · rename_i numbers
      refine Outcome.endsMap (spreads ⟨part, numbers⟩) fun l length => ?_
      intro w mem
      cases mem
      exact ⟨rfl, by simp [Values.length, length]⟩

theorem travellingCounts {n : Nat} {w : SurfaceVariable} (wide : 0 < w.width)
    (length : w.values.length = n * w.width) : w.count = n := by
  rw [SurfaceVariable.count, length, Nat.mul_div_cancel _ wide]

theorem insertAll {P : String × SurfaceVariable → Prop} (l : List (String × SurfaceVariable))
    (m : Named SurfaceVariable) (before : ∀ z ∈ m, P z) (all : ∀ z ∈ l, P z) :
    ∀ z ∈ l.foldl (fun m (name, v) => m.insert name v) m, P z := by
  induction l generalizing m with
  | nil => exact before
  | cons y l ih =>
    refine ih _ (fun z mem => ?_) fun z mem => all z (List.mem_cons_of_mem _ mem)
    rcases Named.memInsert mem with rfl | older
    · exact all y (List.mem_cons_self ..)
    · exact before z older

theorem carryEnds {E : Problem → Prop} {vars : Variables} {spread : Spread} {s : Surface}
    (plain : s.vars = []) (whole : Wholes vars)
    (spreads : ∀ y ∈ vars, Spreads y.2 →
      Outcome.Ends E (fun l => l.length = s.positions.length * y.2.width) (spread y.2)) :
    Outcome.Ends E (Carries vars s) (carry vars spread s) := by
  refine Outcome.endsBind (P := fun l => ∀ z ∈ l, (∃ y ∈ vars, z.2.width = y.2.width) ∧
    z.2.values.length = (if z.2.perVertex then s.positions.length else 1) * z.2.width) ?_ ?_
  · refine Outcome.endsFilterMapM fun y mem => ?_
    have inside := (List.mem_filter.mp mem).1
    refine Outcome.endsBind (carriedEnds (whole y inside) (spreads y inside)) fun c fits => ?_
    intro z mem
    obtain ⟨w, carried, rfl⟩ := Option.map_eq_some_iff.mp mem
    obtain ⟨width, length⟩ := fits w carried
    exact ⟨⟨y, inside, width⟩, length⟩
  · intro travelling fits
    refine ⟨_, rfl, fun wide => insertAll travelling s.vars (by rw [plain]; exact nofun) ?_⟩
    intro z mem
    obtain ⟨⟨y, inside, width⟩, length⟩ := fits z mem
    exact travellingCounts (width ▸ wide y inside) length

theorem carriesSound {vars : Variables} {s t : Surface} (carries : Carries vars s t)
    (wide : ∀ y ∈ vars, 0 < y.2.width) (sound : s.Sound) : t.Sound := by
  obtain ⟨travelling, rfl, fits⟩ := carries
  exact ⟨sound.indices, sound.topology, fits wide⟩

/-- A surface as primitives make it: sound if its variables take up room, with normals that fit it, or
else with a single one for three points or more. -/
structure Emits (vars : Variables) (lone : Bool) (t : Surface) : Prop where
  sound : (∀ y ∈ vars, 0 < y.2.width) → t.Sound
  normals : if lone then t.normals.length = 1 ∧ 3 ≤ t.positions.length else t.Normal

theorem emitsCarried {vars : Variables} {lone : Bool} {s t : Surface} (carries : Carries vars s t)
    (sound : s.Sound)
    (normals : if lone then s.normals.length = 1 ∧ 3 ≤ s.positions.length else s.Normal) :
    Emits vars lone t := by
  refine ⟨fun wide => carriesSound carries wide sound, ?_⟩
  obtain ⟨travelling, rfl, -⟩ := carries
  exact normals

theorem patchSpreadEnds (kind : RequestKind) (ub vb : Basis Float) (steps : Nat × Nat)
    (v : Variable) : Outcome.Yields (fun l => l.length = (steps.1 + 1) * (steps.2 + 1) * v.width)
      (patchSpread kind ub vb steps v) := by
  refine Outcome.endsMapError (fun f => rejectExpected (patchFaultKind f) _ _) fun l done => ?_
  split at done
  · exact Patch.bicubicBlendLength done
  · exact Patch.bilinearBlendLength done

theorem emitsSelected {vars : Variables} {selection : FaceSelection} {lone : Bool} {t : Surface}
    (emits : Emits (vars.select selection) lone t) : Emits vars lone t := by
  refine ⟨fun wide => emits.sound fun y mem => ?_, emits.normals⟩
  obtain ⟨v, inside, same⟩ := Variables.selectFrom mem
  rw [same]
  exact wide _ inside

def Fails (cause : ValueCounts → Variables → Prop) (p : Problem) (d : Dictionary) : Prop :=
  p.Expected ∨ p.isCrash = true ∧ ∃ counts vars, Bound counts d vars ∧ cause counts vars

def Gives (lone : Variables → Bool) (o : Outcome) (d : Dictionary) : Prop :=
  ∀ l, o = .surfaces l → ∃ counts vars, Bound counts d vars ∧ ∀ t ∈ l, Emits vars (lone vars) t

section Ends
variable {α β : Type} {cause : ValueCounts → Variables → Prop} {lone : Variables → Bool}
  {Q : β → Dictionary → Prop} {d : Dictionary} {r : Request}

theorem readBind {m : Args.Read α} (safe : Safe m) {f : α → Declaring β}
    (next : ∀ a, Declaring.Ends (Fails cause) Q (f a) d) :
    Declaring.Ends (Fails cause) Q (Declaring.lift (Args.read r m) >>= f) d := by
  refine Declaring.endsLiftBind (R := fun _ => True) ?_ fun a _ _ => next a
  exact Outcome.endsMono (safeRead safe r) (fun _ => .inl) fun _ => id

theorem boundBind {counts : ValueCounts} {list : List TokenValue} {f : Variables → Declaring β}
    (next : ∀ e vars, Bound counts e vars → Declaring.Ends (Fails cause) Q (f vars) e) :
    Declaring.Ends (Fails cause) Q (Variables.bind counts list >>= f) d := by
  refine Declaring.endsBind ?_ fun vars e _ _ bound => next e vars bound
  exact Declaring.endsMono (Variables.bindEnds counts list d) (fun _ _ => .inl) fun _ _ => id

theorem boundLift {counts : ValueCounts} {vars : Variables} (bound : Bound counts d vars)
    {x : Except Problem Outcome}
    (ends : Outcome.Ends (fun p => p.Expected ∨ p.isCrash = true ∧ cause counts vars)
      (fun o => ∀ l, o = .surfaces l → ∀ t ∈ l, Emits vars (lone vars) t) x) :
    Declaring.Ends (Fails cause) (Gives lone) (Declaring.lift x) d := by
  refine Declaring.endsLift (Outcome.endsMono ends (fun p => ?_) fun o each l same => ?_)
  · exact fun failed => failed.imp_right fun ⟨crash, why⟩ => ⟨crash, counts, vars, bound, why⟩
  · exact ⟨counts, vars, bound, each l same⟩

end Ends

end Primitive
end SceneStream
