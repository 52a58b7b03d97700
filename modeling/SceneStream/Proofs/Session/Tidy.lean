import SceneStream.Proofs.Session.Blocks
import SceneStream.Proofs.Session.Handlers
import SceneStream.Proofs.Session.Seat

/-! What every session has: room in its declarations, attributes in range, and the archive that is being
written down as its innermost block. Its surfaces have no fault, then, but for single normals. -/
namespace SceneStream.Session
open SceneStream.Work

structure Tidy (s : Session) : Prop where
  furnished : s.Furnished
  archive : ∀ x name, s.recording = some x → x.target = .archive name →
    ∃ rest, s.modes.blocks = .archive :: rest

theorem idleTidy {s : Session} (idle : Idle s) : Tidy s :=
  ⟨idle.furnished, fun _ _ recording => by simp [idle.idle] at recording⟩

theorem tidyIdle {s : Session} (tidy : Tidy s) (idle : s.recording = none) : Idle s :=
  ⟨tidy.furnished, idle⟩

inductive Rejected (r : Request) (s : Session) (p : Problem) : Session → Prop where
  | refused (clear : ¬ p.IsUnderflow) (carried : s.carries r = false) : Rejected r s p s
  | failed {t : Session} (carried : s.carries r = true) (unmoved : Unmoved r (sampled s r) p t) :
      Rejected r s p t

theorem unmovedTidy {r : Request} {s t : Session} {p : Problem} (idle : Idle s)
    (unmoved : Unmoved r s p t) : Tidy t := by
  cases unmoved with
  | entered _ grows => exact idleTidy (idleGrows idle grows)
  | switched _ grows =>
    have after := idleGrows idle grows
    exact idleTidy ⟨⟨after.furnished.declarations, after.furnished.attributes⟩, idle.idle⟩
  | popped => exact idleTidy (idleModes idle _)

theorem sampledIdle {s : Session} (idle : Idle s) (r : Request) : Idle (sampled s r) :=
  ⟨⟨idle.furnished.declarations, idle.furnished.attributes⟩, idle.idle⟩

theorem rejectedTidy {r : Request} {s t : Session} {p : Problem} (tidy : Tidy s)
    (rejected : Rejected r s p t) : Tidy t := by
  cases rejected with
  | refused => exact tidy
  | failed carried unmoved =>
    have idle : s.recording = none := (carriesChecked.mp carried).1
    exact unmovedTidy (sampledIdle (tidyIdle tidy idle) r) unmoved

section Requests
variable {r : Request} {s : Session} {play : Player}

theorem tellTidy (tidy : Tidy s) (n : Notice) : Tidy (s.tell n) :=
  ⟨⟨tidy.furnished.declarations, tidy.furnished.attributes⟩, tidy.archive⟩

theorem doesApply (direct : plays r.kind = false) (idle : Idle s) :
    Does (Unmoved r s) Tidy (apply play r) s := by
  have plainly {m : Run Unit} (does : Does (Unmoved r s) Idle m s) : Does (Unmoved r s) Tidy m s :=
    doesMono does fun _ => idleTidy
  unfold apply
  split
  · exact plainly (doesEndContext idle)
  · exact doesOk rfl (idleTidy idle)
  · exact doesOk rfl (idleTidy idle)
  · exact plainly (doesSolid idle)
  · refine doesLift (Args.safeRead safeHandle r) (fun _ => unmovedSame) fun h _ => ?_
    refine doesBind (doesEnter idle .object) fun _ t _ idle => ?_
    refine doesOk rfl ⟨⟨idle.furnished.declarations, idle.furnished.attributes⟩, ?_⟩
    rintro _ name ⟨⟩ ⟨⟩
  · refine doesLift (Args.safeRead Args.safeString r) (fun _ => unmovedSame) fun name _ => ?_
    refine doesBind (doesEnter idle .archive) fun _ t run idle => ?_
    have entered : t.modes.blocks = .archive :: s.modes.blocks := enterBlocks run
    refine doesOk rfl ⟨⟨idle.furnished.declarations, idle.furnished.attributes⟩, ?_⟩
    exact fun _ _ _ _ => ⟨s.modes.blocks, entered⟩
  · split
    · exact plainly (doesEnter idle _)
    · rename_i closes
      exact plainly (doesLeave idle closes)
    · exact plainly (doesPlain play direct idle)

theorem doesExecute (direct : plays r.kind = false) (idle : Idle s) :
    Does (Rejected r s) Tidy (execute play r) s := by
  have counted := sampledIdle idle r
  have does : Does (Unmoved r (sampled s r)) Tidy (apply play r) (sampled s r) := doesApply direct counted
  have ends := executed play s r
  unfold Does at does ⊢
  generalize (execute play r).run s = ran at ends
  cases ends with
  | confirmed =>
    have begun : Idle { s with isFresh := false } :=
      ⟨⟨idle.furnished.declarations, idle.furnished.attributes⟩, idle.idle⟩
    exact tellTidy (idleTidy begun) _
  | refused _ refused =>
    have safe := safeCheckRequest s r
    rw [refused] at safe
    refine .refused (Problem.expectedNoUnderflow safe) ?_
    simp [carries, refused, Except.isOk, Except.toBool]
  | passed => exact tellTidy (idleTidy counted) _
  | applied _ _ _ run =>
    rw [run] at does
    exact tellTidy does _
  | failed _ checked _ run =>
    rw [run] at does
    exact .failed (carriesChecked.mpr ⟨idle.idle, checked⟩) does

theorem keptTidy (tidy : Tidy s) (x : Recording) (modes : ModeStack) :
    Tidy (defined x { s with recording := none, modes }) := by
  have furnished : Furnished (defined x { s with recording := none, modes }) := by
    unfold defined
    split <;> exact ⟨tidy.furnished.declarations, tidy.furnished.attributes⟩
  have idle : (defined x { s with recording := none, modes }).recording = none := by
    unfold defined
    split <;> rfl
  exact idleTidy ⟨furnished, idle⟩

theorem doesFinish (tidy : Tidy s) {x : Recording} {rest : List Mode}
    (top : s.modes.blocks = Target.mode x.target :: rest) :
    Does (Rejected r s) Tidy (finishRecording x r) s := by
  -- The block of the definition is on top, so the end of it cannot fail after it was taken off.
  have run := keepRun x s
  rw [popTop top] at run
  have kept := keptTidy tidy x ⟨rest⟩
  exact doesBind (doesOk run kept) fun _ t _ tidy => doesOk rfl (tellTidy tidy (.done r))

theorem doesRecordArchive (tidy : Tidy s) {x : Recording} {name : String}
    (recording : s.recording = some x) (target : x.target = .archive name) :
    Does (Rejected r s) Tidy (recordArchive x r) s := by
  obtain ⟨rest, top⟩ := tidy.archive x name recording target
  have innermost : s.modes.blocks = Target.mode x.target :: rest := by
    rw [target]
    exact top
  have add (n : Nat) : Does (Rejected r s) Tidy (modify fun s =>
      { s with recording := some (Recording.add r { x with nested := n }) } : Run Unit) s := by
    refine doesOk rfl ⟨⟨tidy.furnished.declarations, tidy.furnished.attributes⟩, ?_⟩
    exact fun _ _ _ _ => ⟨rest, top⟩
  unfold recordArchive
  dsimp only
  split
  · exact add _
  · exact doesFinish tidy innermost
  · exact add _
  · exact add _

theorem doesRecordObject (tidy : Tidy s) {x : Recording} {h : Handle}
    (recording : s.recording = some x) (target : x.target = .object h) :
    Does (Rejected r s) Tidy (recordObject x r) s := by
  have run := recordObjectRun x r s
  have kept : s.carries r = false := by simp [carries, recording]
  cases checked : s.check r with
  | error p =>
    have safe := safeCheckRequest s r
    rw [checked] at run safe
    exact doesError run (.refused (Problem.expectedNoUnderflow safe) kept)
  | ok _ =>
    have allowed := checkedAllows checked
    rw [checked] at run
    dsimp only at run
    by_cases ends : r.kind = .objectEnd
    · have closed : Mode.closedBy r.kind = some .object := by rw [ends]; rfl
      obtain ⟨rest, top⟩ := allowedClose allowed closed (by decide)
      rw [if_pos ends] at run
      have innermost : s.modes.blocks = Target.mode x.target :: rest := by
        rw [target]
        exact top
      have finish : Does (Rejected r s) Tidy (finishRecording x r) s := doesFinish tidy innermost
      unfold Does at finish ⊢
      rw [run]
      exact finish
    · rw [if_neg ends] at run
      cases next : followed s.modes r.kind with
      | error p =>
        rw [next] at run
        have expected := (followedRefused allowed next).1
        exact doesError run (.refused (Problem.expectedNoUnderflow expected) kept)
      | ok modes =>
        rw [next] at run
        refine doesOk run ⟨⟨tidy.furnished.declarations, tidy.furnished.attributes⟩, ?_⟩
        rintro _ name ⟨⟩ archive
        rw [show (x.add r).target = .object h from target] at archive
        cases archive

theorem doesDispatch (direct : Direct s r) (tidy : Tidy s) :
    Does (Rejected r s) Tidy (dispatch play r) s := by
  refine doesGet ?_
  cases recording : s.recording with
  | none => exact doesExecute (direct recording) (tidyIdle tidy recording)
  | some x =>
    dsimp only
    split
    · rename_i name target
      exact doesRecordArchive tidy recording target
    · rename_i h target
      exact doesRecordObject tidy recording target

end Requests

theorem tidyInvariant : Invariant Tidy where
  alike {s t} tidy alike := by
    obtain ⟨options, dictionary, modes, state, recording, -⟩ := alike
    refine ⟨⟨dictionary ▸ tidy.furnished.declarations, ?_⟩, fun x name same target => ?_⟩
    · rw [state, dictionary, options]
      exact tidy.furnished.attributes
    · rw [modes]
      exact tidy.archive x name (recording ▸ same) target
  direct play {s r} direct tidy := by
    have does : Does (Rejected r s) Tidy (dispatch play r) s := doesDispatch direct tidy
    unfold Does at does
    cases run : (dispatch play r).run s with
    | mk x t =>
      rw [run] at does
      cases x with
      | ok _ => exact does
      | error p => exact rejectedTidy tidy does

theorem tidyStart (options : SessionOptions) (files : Files) : Tidy (start options files) :=
  idleTidy ⟨⟨Dictionary.initialPositive, State.initialInRange _ _⟩, rfl⟩

theorem reachableTidy {options : SessionOptions} {files : Files} {s : Session}
    (reached : Reachable options files s) : Tidy s :=
  reachableKeeps tidyInvariant (tidyStart options files) reached

/-- Whatever is asked of a session that was given a tessellation in range, the attributes that hold and those
that are kept have a component for each color sample, of which there is one at least, steps that go on along a
net, one side or two, and a tessellation in range. -/
theorem attributesStayInRange {options : SessionOptions} {files : Files} {s : Session}
    (reached : Reachable options files s) (given : Attributes.Fine options.tessellation) :
    0 < s.dictionary.colorSamples ∧
    ∀ a ∈ s.state.attributes :: s.state.frames.map Frame.attributes,
      a.color.length = s.dictionary.colorSamples ∧ a.opacity.length = s.dictionary.colorSamples ∧
      1 ≤ a.uBasis.step ∧ 1 ≤ a.vBasis.step ∧ (a.sides = 1 ∨ a.sides = 2) ∧ Attributes.Fine a.tessellation := by
  obtain ⟨declarations, current, kept⟩ := (reachableTidy reached).furnished
  have inRange : ∀ a ∈ s.state.attributes :: s.state.frames.map Frame.attributes,
      a.InRange s.dictionary.colorSamples s.options.tessellation := by
    intro a mem
    rcases List.mem_cons.mp mem with rfl | older
    · exact current
    · obtain ⟨f, inside, rfl⟩ := List.mem_map.mp older
      exact kept f inside
  refine ⟨declarations.samples, fun a mem => ?_⟩
  obtain ⟨color, opacity, uStep, vStep, sides, tessellation⟩ := inRange a mem
  exact ⟨color, opacity, uStep, vStep, sides, tessellation (reachableOptions reached ▸ given)⟩

def widened : List Request :=
  [⟨.frameBegin, 1, [.of (.integers [1]) false]⟩,
    ⟨.colorSamples, 2, [.of (.integers [1, 0, 0, 0, 1, 0]) true, .of (.integers [1, 0, 0, 0, 1, 0]) true]⟩,
    ⟨.geometricApproximation, 3, [.of (.strings ["tessellation"]) false, .of (.integers [8]) false]⟩]

theorem widenedStaysInRange :
    let s := widened.foldl process (start .default (.bare []))
    (s.state.frames.length = 1 ∧ s.dictionary.colorSamples = 2 ∧ s.state.attributes.tessellation = (8, 8)) ∧
    ∀ a ∈ s.state.attributes :: s.state.frames.map Frame.attributes,
      a.color.length = s.dictionary.colorSamples ∧ a.opacity.length = s.dictionary.colorSamples ∧
      1 ≤ a.uBasis.step ∧ 1 ≤ a.vBasis.step ∧ (a.sides = 1 ∨ a.sides = 2) ∧ Attributes.Fine a.tessellation := by
  have given : Attributes.Fine SessionOptions.default.tessellation := ⟨by decide, by decide⟩
  exact ⟨by decide +kernel, (attributesStayInRange (reachableProcess .start widened) given).2⟩

/-- In every session, the surfaces that a request is made into have no fault once they are dressed. The
one exception is a single normal that is declared for the whole of a polygon or of a mesh: with it every
surface of the request has one normal for three positions or more. So a geometry request runs into a
problem of the program's own only there. -/
theorem surfacesHaveNoFault {options : SessionOptions} {files : Files} {s : Session}
    (reached : Reachable options files s) (r : Request) :
    (∀ l d, (Primitive.tessellate s.setting r).run s.dictionary = (.ok (.surfaces l), d) →
      (∀ x ∈ l, (dressed { s with dictionary := d } x).fault? = none) ∨ LoneNormal r.kind d ∧
        ∀ x ∈ l, (dressed { s with dictionary := d } x).fault? =
          some (.normals 1 x.positions.length) ∧ 3 ≤ x.positions.length) ∧
    ∀ p t, (tessellate r).run s = (.error p, t) → p.kind = .internal →
      LoneNormal r.kind t.dictionary := by
  have furnished := (reachableTidy reached).furnished
  refine ⟨fun l d run => tessellatedDresses furnished run, fun p t failed internal => ?_⟩
  obtain ⟨d, -, ⟨l, run⟩ | ⟨q, run, -, lone⟩⟩ := tessellateRun furnished r
  · rw [run] at failed
    cases failed
  · rw [run] at failed
    cases failed
    exact lone internal

def worldBegun : Session := process (start .default (.bare [])) ⟨.worldBegin, 1, []⟩

def ball : Request := ⟨.sphere, 2, [1, -1, 1, 360].map fun n => .of (.integers [n]) false⟩

theorem ballHasNoFault :
    (∀ l d, (Primitive.tessellate worldBegun.setting ball).run worldBegun.dictionary =
      (.ok (.surfaces l), d) → ∀ x ∈ l, (dressed { worldBegun with dictionary := d } x).fault? = none) ∧
    ∀ p t, (tessellate ball).run worldBegun = (.error p, t) → p.kind ≠ .internal := by
  have reached : Reachable .default (.bare []) worldBegun := reachableProcess .start [_]
  have inner {d : Dictionary} : ¬ LoneNormal ball.kind d := fun lone => nomatch lone.faces
  obtain ⟨surfaces, problems⟩ := surfacesHaveNoFault reached ball
  refine ⟨fun l d run => ?_, fun p t failed internal => inner (problems p t failed internal)⟩
  exact (surfaces l d run).resolve_right fun lone => inner lone.1

def normalDeclared : List Request :=
  [⟨.declare, 1, [.of (.strings ["N"]) false, .of (.strings ["uniform normal"]) false]⟩, ⟨.worldBegin, 2, []⟩,
    ⟨.polygon, 3, [.of (.strings ["P"]) false, .of (.integers [0, 0, 0, 1, 0, 0, 0, 1, 0]) true,
      .of (.strings ["N"]) false, .of (.integers [0, 0, 1]) true]⟩]

theorem declaredNormalFaults :
    ∃ p, .problem p ∈ (normalDeclared.foldl process (start .default (.bare []))).notices ∧ p.kind = .internal ∧
      p.severity = .severe := by
  have told : (normalDeclared.foldl process (start .default (.bare []))).notices.any (fun
      | .problem p => p.kind == .internal && p.severity == .severe
      | _ => false) = true := by decide +kernel
  obtain ⟨n, mem, severe⟩ := List.any_eq_true.mp told
  cases n with
  | problem p => exact ⟨p, mem, by simpa using severe⟩
  | _ => cases severe

end SceneStream.Session
