import SceneStream.Proofs.Session.Tidy

/-! Requests that are refused. Nothing comes of one, but for three things that are done before the request
is found out: it is counted in an open motion, an option switches the layout, and the end of a block that
has kept nothing closes it. -/
namespace SceneStream.Session
open SceneStream.Work

theorem deeperFails {play : Player} {kind : RequestKind}
    {work : (Session → Request → Session) → Session → Session} {s t : Session} {p : Problem}
    (run : (deeper play kind work).run s = (.error p, t)) (alive : p.isCrash = false) :
    ¬ p.IsUnderflow ∧ t = s := by
  cases play with
  | none =>
    cases run
    exact ⟨fun underflow => (nomatch underflow.1), rfl⟩
  | some f =>
    -- What is played reports its own problems; only a crash in it ends the request that plays it.
    rw [deeperRun] at run
    obtain ⟨problem, -⟩ := Prod.mk.inj run
    split at problem
    · have crash := congrArg Problem.isCrash (Except.error.inj problem)
      rw [alive] at crash
      cases crash
    · cases problem

theorem playRejects {play : Player} {r : Request} {s t : Session} {p : Problem}
    (idle : s.recording = none) (others : plays r.kind = true)
    (run : (execute play r).run s = (.error p, t)) (alive : p.isCrash = false) :
    Rejected r s p t := by
  have ends := executed play s r
  rw [run] at ends
  cases ends with
  | refused _ refused =>
    have safe := safeCheckRequest s r
    rw [refused] at safe
    refine .refused (Problem.expectedNoUnderflow safe) ?_
    simp [carries, refused, Except.isOk, Except.toBool]
  | failed _ checked _ failed =>
    have carried : s.carries r = true := carriesChecked.mpr ⟨idle, checked⟩
    obtain ⟨q, expected, refused⟩ | ⟨work, -, deep⟩ := playsApply play others (sampled s r)
    · rw [refused] at failed
      cases failed
      exact .failed carried (unmovedSame (Problem.expectedNoUnderflow expected))
    · rw [deep] at failed
      obtain ⟨clear, rfl⟩ := deeperFails failed alive
      exact .failed carried (unmovedSame clear)

theorem dispatchRejects {play : Player} {r : Request} {s t : Session} {p : Problem} (tidy : Tidy s)
    (run : (dispatch play r).run s = (.error p, t)) (alive : p.isCrash = false) :
    Rejected r s p t := by
  by_cases direct : Direct s r
  · have does : Does (Rejected r s) Tidy (dispatch play r) s := doesDispatch direct tidy
    unfold Does at does
    rw [run] at does
    exact does
  · -- Only when nothing is being written down are other requests played.
    obtain ⟨idle, others⟩ := Classical.not_imp.mp direct
    rw [dispatchIdle play idle] at run
    exact playRejects idle (by simpa using others) run alive

theorem closesPlaysNone {k : RequestKind} {m : Mode} (closes : Mode.closedBy k = some m) :
    plays k = false := by
  refine Bool.eq_false_iff.mpr fun others => ?_
  obtain kind | kind := playsKind others <;> rw [kind] at closes <;> cases closes

theorem underflowStrays {play : Player} {r : Request} {s t : Session} {p : Problem}
    (sound : s.shape.Sound) (direct : Direct s r) (isOpen : s.shape.isOpen)
    (run : (dispatch play r).run s = (.error p, t)) (underflow : p.IsUnderflow) :
    s.shape.strays ≠ 0 := by
  intro none
  have raised := (movesDispatch play direct).raised (sound.inStep isOpen none) p
  rw [run] at raised
  exact raised rfl underflow

theorem sampledMotion {s : Session} {r : Request} (carried : s.carries r = true) :
    (sampled s r).motion =
      if s.carries r = true ∧ r.kind ≠ .motionEnd then s.motion.map (· + 1) else s.motion := by
  by_cases ends : r.kind = .motionEnd <;> simp [sampled, carried, ends]

/-- What is left of a session in which a request fails without a crash: no notice is given of it, and
nothing is defined or drawn by it. Tokens that declare themselves may have been entered. In an open motion
it counts as a sample, however, if it was legal to ask for; an option that fails at one of its pairs has
taken the ones before; and an end that finds a stack empty has closed its block, which only happens where
an object is open that is not being written down. -/
theorem rejectionChanges {options : SessionOptions} {files : Files} {s t : Session}
    (reached : Reachable options files s) {play : Player} {r : Request} {p : Problem}
    (run : (dispatch play r).run s = (.error p, t)) (alive : p.isCrash = false) :
    t = { s with
      isFresh := t.isFresh
      dictionary := t.dictionary
      motion := t.motion
      layout := t.layout
      modes := t.modes } ∧
    s.dictionary.Grows t.dictionary ∧
    t.dictionary.colorSamples = s.dictionary.colorSamples ∧
    (∃ new, t.dictionary.declared = new ++ s.dictionary.declared ∧ ∀ x ∈ new, x.isInline = true) ∧
    t.motion =
      (if s.carries r = true ∧ r.kind ≠ .motionEnd then s.motion.map (· + 1) else s.motion) ∧
    (t.layout = s.layout ∨ r.kind = .setOption ∧ NamesLayout r t.layout) ∧
    (t.modes = s.modes ∨ p.IsUnderflow ∧ s.shape.strays ≠ 0 ∧
      ∃ m, Mode.closedBy r.kind = some m ∧ s.modes.blocks = m :: t.modes.blocks) := by
  have declares {d : Dictionary} (grows : s.dictionary.Grows d) :=
    And.intro (Dictionary.growsColorSamples grows) (Dictionary.growsDeclared grows)
  cases dispatchRejects (reachableTidy reached) run alive with
  | refused _ carried =>
    obtain ⟨samples, declared⟩ := declares .refl
    exact ⟨rfl, .refl, samples, declared, by simp [carried], .inl rfl, .inl rfl⟩
  | failed carried unmoved =>
    have motion := sampledMotion carried
    cases unmoved with
    | entered _ grows =>
      obtain ⟨samples, declared⟩ := declares grows
      exact ⟨rfl, grows, samples, declared, motion, .inl rfl, .inl rfl⟩
    | switched _ grows option named =>
      obtain ⟨samples, declared⟩ := declares grows
      exact ⟨rfl, grows, samples, declared, motion, .inr ⟨option, named⟩, .inl rfl⟩
    | popped underflow closes pops =>
      obtain ⟨samples, declared⟩ := declares .refl
      have popped : s.modes.blocks = _ := poppedModes pops
      have isOpen : s.shape.isOpen := by simp [Shape.isOpen, shape, popped]
      have strays := underflowStrays (reachableSound reached) (fun _ => closesPlaysNone closes)
        isOpen run underflow
      exact ⟨rfl, .refl, samples, declared, motion, .inl rfl,
        .inr ⟨underflow, strays, _, closes, popped⟩⟩

def motionBegun : List Request := [⟨.worldBegin, 1, []⟩, ⟨.motionBegin, 2, [.of (.integers [0, 1]) true]⟩]

def polygonWithoutPoints : Request := ⟨.polygon, 3, []⟩

theorem rejectedPolygonKeepsTheRest :
    let s := motionBegun.foldl process (start .default (.bare []))
    ∃ p t, (dispatch (some process) polygonWithoutPoints).run s = (.error p, t) ∧ p.isCrash = false ∧ t = { s with
      isFresh := t.isFresh
      dictionary := t.dictionary
      motion := some 1
      layout := t.layout
      modes := t.modes } := by
  intro s
  have run : (dispatch (some process) polygonWithoutPoints).run s = (.error _, _) := rfl
  obtain ⟨same, -, -, -, motion, -⟩ := rejectionChanges (reachableProcess .start motionBegun) run rfl
  exact ⟨_, _, run, rfl, same.trans (by rw [motion]; rfl)⟩

theorem rejectedPolygonCounts :
    let s := motionBegun.foldl process (start .default (.bare []))
    ∃ p t, (dispatch (some process) polygonWithoutPoints).run s = (.error p, t) ∧ s.motion = some 0 ∧
      t.motion = some 1 :=
  ⟨_, _, rfl, rfl, rfl⟩

end SceneStream.Session
