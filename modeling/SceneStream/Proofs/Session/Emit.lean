import SceneStream.Proofs.Session.Silent

/-! Surfaces as a session tells them. All surfaces of one request are alike in this: either none has a
fault, or each has a single normal where it has more positions. -/
namespace SceneStream
open SceneStream.Primitive (Emits Gives isFaces loneNormal)
open SceneStream.Variables (Bound)

/-- A single normal is declared for the whole of a polygon or of a mesh. -/
structure LoneNormal (kind : RequestKind) (d : Dictionary) : Prop where
  faces : isFaces kind = true
  declared : ∃ x, d.Stands x ∧ (x.name = "N" ∧ d.width x = 3) ∧ x.kind ≠ .string ∧
    x.storage.isWhole = true

theorem loneDeclared {kind : RequestKind} {counts : ValueCounts} {vars : Variables}
    {d : Dictionary} (bound : Bound counts d vars)
    (lone : (isFaces kind && loneNormal vars) = true) : LoneNormal kind d := by
  obtain ⟨faces, any⟩ := Bool.and_eq_true_iff.mp lone
  refine ⟨faces, ?_⟩
  unfold loneNormal at any
  cases found : Primitive.ofWidth? vars "N" 3 with
  | none =>
    rw [found] at any
    cases any
  | some v =>
    rw [found] at any
    obtain ⟨whole, numbers⟩ := Bool.and_eq_true_iff.mp any
    obtain ⟨x, stands, normal, kind, storage, -⟩ := Primitive.ofWidthStands bound found
    exact ⟨x, stands, normal, kind ▸ bne_iff_ne.mp numbers, storage ▸ whole⟩

theorem boundWide {counts : ValueCounts} {vars : Variables} {d : Dictionary} (positive : d.Positive)
    (bound : Bound counts d vars) : ∀ y ∈ vars, 0 < y.2.width := by
  intro y mem
  obtain ⟨x, -, source⟩ := bound y mem
  rw [source.width]
  exact Dictionary.widthPositive positive source.stands

namespace Session
open SceneStream.Work

structure Furnished (s : Session) : Prop where
  declarations : s.dictionary.Positive
  attributes : s.state.InRange s.dictionary.colorSamples s.options.tessellation

theorem furnishedGrows {s : Session} (furnished : s.Furnished) {d : Dictionary}
    (grows : s.dictionary.Grows d) : Furnished { s with dictionary := d } :=
  ⟨Dictionary.growsPositive grows furnished.declarations,
    (Dictionary.growsColorSamples grows).symm ▸ furnished.attributes⟩

theorem dressedSound {s : Session} (furnished : s.Furnished) {x : Surface} (sound : x.Sound) :
    (s.dressed x).Sound := by
  obtain ⟨⟨samples, -⟩, ⟨⟨color, opacity, -⟩, -⟩⟩ := furnished
  have single {values : List Single} (length : values.length = s.dictionary.colorSamples) :
      SurfaceVariable.count ⟨.color, s.dictionary.colorSamples, false, .floats values⟩ = 1 := by
    simp only [SurfaceVariable.count, Values.length, length]
    exact Nat.div_self samples
  have added {vars : Named SurfaceVariable} (name : String) {values : List Single}
      (length : values.length = s.dictionary.colorSamples)
      (before : ∀ y ∈ vars, y.2.count = if y.2.perVertex then x.positions.length else 1) :
      ∀ y ∈ if vars.contains name then vars
        else vars.insert name ⟨.color, s.dictionary.colorSamples, false, .floats values⟩,
        y.2.count = if y.2.perVertex then x.positions.length else 1 := by
    split
    · exact before
    · intro y mem
      rcases Named.memInsert mem with rfl | older
      · exact single length
      · exact before y older
  exact ⟨sound.indices, sound.topology, added "Os" opacity (added "Cs" color sound.vars)⟩

def Dresses (s : Session) (kind : RequestKind) (l : List Surface) : Prop :=
  (∀ x ∈ l, (s.dressed x).fault? = none) ∨ LoneNormal kind s.dictionary ∧
    ∀ x ∈ l, (s.dressed x).fault? = some (.normals 1 x.positions.length) ∧ 3 ≤ x.positions.length

theorem dressesEach {s : Session} (furnished : s.Furnished) {kind : RequestKind}
    {counts : ValueCounts} {vars : Variables} (bound : Bound counts s.dictionary vars)
    {l : List Surface} (each : ∀ x ∈ l, Emits vars (isFaces kind && loneNormal vars) x) :
    Dresses s kind l := by
  have wide := boundWide furnished.declarations bound
  have sound (x : Surface) (mem : x ∈ l) := dressedSound furnished ((each x mem).sound wide)
  cases lone : isFaces kind && loneNormal vars with
  | false =>
    refine .inl fun x mem => Surface.faultless (sound x mem) ?_
    have normals := (each x mem).normals
    rw [lone] at normals
    exact normals
  | true =>
    refine .inr ⟨loneDeclared bound lone, fun x mem => ?_⟩
    have normals := (each x mem).normals
    rw [lone] at normals
    obtain ⟨single, three⟩ := normals
    have one : (s.dressed x).normals.length = 1 := single
    have many : 3 ≤ (s.dressed x).positions.length := three
    rw [Surface.wrongNormals (List.ne_nil_of_length_pos (by omega)) (by omega), one]
    exact ⟨rfl, three⟩

theorem tessellatedDresses {s : Session} (furnished : s.Furnished) {r : Request} {l : List Surface}
    {d : Dictionary}
    (run : (Primitive.tessellate s.setting r).run s.dictionary = (.ok (.surfaces l), d)) :
    Dresses { s with dictionary := d } r.kind l := by
  obtain ⟨grows, outcome⟩ := Primitive.tessellateEnds s.setting r s.dictionary
  rw [run] at grows outcome
  obtain ⟨counts, vars, bound, each⟩ := outcome l rfl
  exact dressesEach (furnishedGrows furnished grows) bound each

theorem emitRun (x : Surface) (s : Session) :
    (emit x).run s = match (s.dressed x).fault? with
      | some f => (.error (.of .internal s!"{(s.dressed x).primitive.name}: {f.message}"), s)
      | none => (.ok (), s.tell (.surface (s.dressed x))) := by
  simp only [emit, runBind, runGet]
  cases (s.dressed x).fault? <;> rfl

theorem emitAll {s : Session} {kind : RequestKind} {l : List Surface} (dresses : Dresses s kind l) :
    (∃ place fault : String, LoneNormal kind s.dictionary ∧
      (l.forM emit).run s = (.error (.of .internal s!"{place}: {fault}"), s)) ∨
      (l.forM emit).run s = (.ok (), l.foldl (fun t x => t.tell (.surface (s.dressed x))) s) := by
  rcases dresses with each | ⟨lone, each⟩
  · -- What is told does not change how the next surface is dressed.
    have told (l : List Surface) (t : Session) (same : ∀ x, t.dressed x = s.dressed x)
        (each : ∀ x ∈ l, (s.dressed x).fault? = none) : (l.forM emit).run t =
          (.ok (), l.foldl (fun t x => t.tell (.surface (s.dressed x))) t) := by
      induction l generalizing t with
      | nil => rfl
      | cons x l ih =>
        refine (runBind (emit x) (fun _ => l.forM emit) t).trans ?_
        rw [emitRun, same, each x (List.mem_cons_self ..)]
        exact ih _ same fun y mem => each y (List.mem_cons_of_mem _ mem)
    exact .inr (told l s (fun _ => rfl) each)
  · cases l with
    | nil => exact .inr rfl
    | cons x l =>
      -- The first surface has the fault already, so none has been told before it.
      have first := emitRun x s
      rw [(each x (List.mem_cons_self ..)).1] at first
      have split : ((x :: l).forM emit).run s = _ := runBind (emit x) (fun _ => l.forM emit) s
      rw [first] at split
      exact .inl ⟨_, _, lone, split⟩

theorem declaringRun {α β : Type} (m : Declaring α) (f : α → Run β) (s : Session) :
    (Run.declaring m >>= f).run s = match m.run s.dictionary with
      | (.ok a, d) => (f a).run { s with dictionary := d }
      | (.error p, d) => (.error p, { s with dictionary := d }) := by
  have first : (Run.declaring m).run s =
    ((m.run s.dictionary).1, { s with dictionary := (m.run s.dictionary).2 }) := rfl
  rw [runBind, first]
  cases m.run s.dictionary with
  | mk x d => cases x <;> rfl

/-- The dictionary grows, and beyond that nothing is told before the last problem may have come. -/
theorem tessellateRun {s : Session} (furnished : s.Furnished) (r : Request) :
    ∃ d, s.dictionary.Grows d ∧
      ((∃ l, (tessellate r).run s =
          (.ok (), { s with dictionary := d, notices := l ++ s.notices })) ∨
        ∃ p, (tessellate r).run s = (.error p, { s with dictionary := d }) ∧ ¬ p.IsUnderflow ∧
          (p.kind = .internal → LoneNormal r.kind d)) := by
  have run : (tessellate r).run s = _ := (runBind get _ s).trans (declaringRun _ _ s)
  have ends := Primitive.tessellateEnds s.setting r s.dictionary
  cases done : (Primitive.tessellate s.setting r).run s.dictionary with
  | mk x d =>
    obtain ⟨grows, outcome⟩ := ends
    rw [done] at run grows outcome
    refine ⟨d, grows, ?_⟩
    cases x with
    | error p =>
      refine .inr ⟨p, run, ?_⟩
      rcases outcome with expected | ⟨crash, -⟩
      · exact ⟨Problem.expectedNoUnderflow expected, fun internal => absurd (internal ▸ .internal) expected⟩
      · refine ⟨Problem.crashNoUnderflow crash, fun internal => ?_⟩
        rw [Problem.isCrash, internal] at crash
        cases crash
    | ok o =>
      cases o with
      | surfaces l =>
        rcases emitAll (tessellatedDresses furnished done) with ⟨place, fault, lone, failed⟩ | told
        · exact .inr ⟨_, run.trans failed, Problem.colonNoUnderflow place fault, fun _ => lone⟩
        · have noted (l : List Surface) (t : Session) : ∃ n,
              l.foldl (fun u x => u.tell (.surface (dressed { s with dictionary := d } x))) t =
                { t with notices := n ++ t.notices } := by
            induction l generalizing t with
            | nil => exact ⟨[], rfl⟩
            | cons x l ih =>
              obtain ⟨n, same⟩ := ih (t.tell (.surface (dressed { s with dictionary := d } x)))
              refine ⟨n ++ [.surface (dressed { s with dictionary := d } x)], same.trans ?_⟩
              simp [tell]
          obtain ⟨n, same⟩ := noted l { s with dictionary := d }
          exact .inl ⟨n, run.trans (told.trans (congrArg _ same))⟩
      | bound vars => exact .inl ⟨[.unsupported r.kind vars], run⟩
      | deferred => exact .inl ⟨[], run⟩

end Session
end SceneStream
