import SceneStream.Proofs.Session.Emit
import SceneStream.Proofs.Session.Reachable

/-! How requests end that play no others. One that is carried out leaves declarations with room, and
attributes in range; one that fails leaves all as it was, but for a few things that it had done before. -/
namespace SceneStream.Session
open SceneStream.Work

def NamesLayout (r : Request) (layout : Layout) : Prop :=
  ∃ q ∈ r.params, ∃ name, q.string? = some name ∧ Layout.ofName? name = some layout

inductive Unmoved (r : Request) (s : Session) (p : Problem) : Session → Prop where
  | entered {d : Dictionary} (clear : ¬ p.IsUnderflow) (grows : s.dictionary.Grows d) :
      Unmoved r s p { s with dictionary := d }
  | switched {d : Dictionary} {layout : Layout} (clear : ¬ p.IsUnderflow)
      (grows : s.dictionary.Grows d) (option : r.kind = .setOption) (named : NamesLayout r layout) :
      Unmoved r s p { s with dictionary := d, layout }
  | popped {m : Mode} {modes : ModeStack} (underflow : p.IsUnderflow)
      (closes : Mode.closedBy r.kind = some m) (pops : s.modes.pop m = .ok modes) :
      Unmoved r s p { s with modes }

theorem unmovedSame {r : Request} {s : Session} {p : Problem} (clear : ¬ p.IsUnderflow) :
    Unmoved r s p s := .entered clear .refl

structure Idle (s : Session) : Prop where
  furnished : s.Furnished
  idle : s.recording = none

/-- How work ends: `G` holds of the session after it, or else `F` of the problem and the session. -/
@[irreducible] def Does {α : Type} (F : Problem → Session → Prop) (G : Session → Prop) (m : Run α) (s : Session) :
    Prop :=
  match m.run s with
  | (.ok _, t) => G t
  | (.error p, t) => F p t

section Does
variable {α β : Type} {F : Problem → Session → Prop} {G H : Session → Prop} {s t : Session}

theorem doesOk {m : Run α} {a : α} (run : m.run s = (.ok a, t)) (holds : G t) : Does F G m s := by
  unfold Does
  rw [run]
  exact holds

theorem doesError {m : Run α} {p : Problem} (run : m.run s = (.error p, t)) (holds : F p t) :
    Does F G m s := by
  unfold Does
  rw [run]
  exact holds

theorem doesMono {m : Run α} (does : Does F G m s) (values : ∀ t, G t → H t) : Does F H m s := by
  unfold Does at does ⊢
  split
  · rename_i run
    rw [run] at does
    exact values _ does
  · rename_i run
    rw [run] at does
    exact does

theorem doesBind {m : Run α} {f : α → Run β} (first : Does F H m s)
    (next : ∀ a t, m.run s = (.ok a, t) → H t → Does F G (f a) t) : Does F G (m >>= f) s := by
  have split := runBind m f s
  unfold Does at first next ⊢
  cases run : m.run s with
  | mk x t =>
    rw [run] at split first
    rw [split]
    cases x with
    | ok a => exact next a t run first
    | error p => exact first

theorem doesGet {f : Session → Run β} (next : Does F G (f s) s) : Does F G (get >>= f) s := by
  unfold Does at next ⊢
  rw [runBind, runGet]
  exact next

theorem doesLift {x : Except Problem α} {P : α → Prop} (sound : Outcome.Yields P x)
    (same : ∀ p, ¬ p.IsUnderflow → F p s) {f : α → Run β} (next : ∀ a, P a → Does F G (f a) s) :
    Does F G (Run.lift x >>= f) s := by
  cases x with
  | error p => exact doesError rfl (same p (Problem.expectedNoUnderflow sound))
  | ok a => exact next a sound

theorem doesDeclaring {m : Declaring α} {P : α → Dictionary → Prop}
    (ends : Declaring.Ends (fun p _ => p.Expected) P m s.dictionary)
    (entered : ∀ p d, ¬ p.IsUnderflow → s.dictionary.Grows d → F p { s with dictionary := d })
    {f : α → Run β} (next : ∀ a d, s.dictionary.Grows d → P a d →
      Does F G (f a) { s with dictionary := d }) :
    Does F G (Run.declaring m >>= f) s := by
  have run := declaringRun m f s
  obtain ⟨grows, outcome⟩ := ends
  cases done : m.run s.dictionary with
  | mk x d =>
    rw [done] at run grows outcome
    cases x with
    | error p => exact doesError run (entered p d (Problem.expectedNoUnderflow outcome) grows)
    | ok a =>
      have after := next a d grows outcome
      unfold Does at after ⊢
      rw [run]
      exact after

end Does

/-! Pairs of an option are given with the request. -/

theorem pairsGiven {kind : RequestKind} {l : List Parameter} {list : List TokenValue}
    (read : Args.pairs kind l = .ok list) : ∀ x ∈ list, x.value ∈ l := by
  fun_induction Args.pairs kind l generalizing list with
  | case1 =>
    cases read
    exact List.forall_mem_nil _
  | case2 => cases read
  | case3 => cases read
  | case4 p token found value rest ih =>
    cases tail : Args.pairs kind rest with
    | error p =>
      rw [tail] at read
      cases read
    | ok more =>
      rw [tail] at read
      cases read
      intro x mem
      rcases List.mem_cons.mp mem with rfl | later
      · exact List.mem_cons_of_mem _ (List.mem_cons_self ..)
      · exact List.mem_cons_of_mem _ (List.mem_cons_of_mem _ (ih tail x later))

theorem wholeGiven {α : Type} {what : String} {view : Parameter → Option α} {a b : Args} {x : α}
    (run : (Args.whole what view).run a = (.ok x, b)) :
    ∃ p, view p = some x ∧ a.params = p :: b.params := by
  unfold Args.whole at run
  simp only [runBind, runGet] at run
  split at run
  · cases run
  · cases first : a.peek with
    | none =>
      rw [first] at run
      cases run
    | some p =>
      rw [first] at run
      dsimp only at run
      cases seen : view p with
      | none =>
        rw [seen] at run
        cases run
      | some y =>
        rw [seen] at run
        cases run
        obtain ⟨rest, all⟩ := List.head?_eq_some_iff.mp first
        exact ⟨p, seen, by rw [Args.advanceWhole, all, List.tail_cons]⟩

theorem tokenListGiven (a : Args) :
    Outcome.Yields (fun l => ∀ x ∈ l, x.value ∈ a.params) (Args.tokenList.run a).1 := by
  have safe := Args.safeTokenList a
  unfold Args.tokenList at safe ⊢
  simp only [runBind, runGet] at safe ⊢
  split
  · exact nofun
  · cases read : Args.pairs a.kind a.params with
    | error p =>
      have expected := Args.safePairs a.kind a.params
      rw [read] at expected
      exact expected
    | ok l => exact pairsGiven read

theorem optionGiven (r : Request) :
    Outcome.Yields (fun l : List TokenValue => ∀ x ∈ l, x.value ∈ r.params) (Args.read r do
      if (← Args.string) = "tessellation" then Args.tokenList else return []) := by
  have safe := Args.safeString (Args.of r)
  unfold Args.read
  rw [runBind]
  cases run : Args.string.run (Args.of r) with
  | mk x b =>
    rw [run] at safe
    cases x with
    | error p => exact safe
    | ok name =>
      dsimp only
      split
      · refine Outcome.endsMono (tokenListGiven b) (fun _ => id) fun l given x mem => ?_
        obtain ⟨p, -, all⟩ := wholeGiven run
        rw [show r.params = p :: b.params from all]
        exact List.mem_cons_of_mem _ (given x mem)
      · exact nofun

section Handlers
variable {r : Request} {s : Session}

theorem idleGrows (idle : Idle s) {d : Dictionary} (grows : s.dictionary.Grows d) :
    Idle { s with dictionary := d } := ⟨furnishedGrows idle.furnished grows, idle.idle⟩

theorem idleModes (idle : Idle s) (modes : ModeStack) : Idle { s with modes } :=
  ⟨⟨idle.furnished.declarations, idle.furnished.attributes⟩, idle.idle⟩

theorem idleReport (idle : Idle s) (p : Problem) : Idle (s.report p) := by
  obtain ⟨options, dictionary, -, state, recording, -⟩ := alikeReport s p
  obtain ⟨⟨declarations, attributes⟩, none⟩ := idle
  exact ⟨⟨dictionary ▸ declarations, state ▸ dictionary ▸ options ▸ attributes⟩, recording.trans none⟩

theorem doesReport {F : Problem → Session → Prop} (idle : Idle s) (p : Problem) :
    Does F Idle (Run.report p) s :=
  doesOk rfl (idleReport idle p)

theorem enteredIdle (idle : Idle s) (m : Mode) : Idle (entered m s) := by
  obtain ⟨⟨declarations, current, kept⟩, none⟩ := idle
  have pushed : ∀ f ∈ s.state.pushAttributes.frames,
      f.attributes.InRange s.dictionary.colorSamples s.options.tessellation := by
    intro f mem
    rcases List.mem_cons.mp mem with rfl | older
    · exact current
    · exact kept f older
  cases m with
  | context => exact ⟨⟨Dictionary.initialPositive, State.initialInRange _ _⟩, none⟩
  | frame | attributes | solid | world => exact ⟨⟨declarations, current, pushed⟩, none⟩
  | transform | motion | object | resource | archive => exact ⟨⟨declarations, current, kept⟩, none⟩

theorem doesEnter (idle : Idle s) (m : Mode) : Does (Unmoved r s) Idle (enter m) s := by
  have run := enterRun m s
  cases pushed : s.modes.push m with
  | error p =>
    rw [pushed] at run
    exact doesError run (unmovedSame (Problem.expectedNoUnderflow (pushExpected pushed)))
  | ok modes =>
    rw [pushed] at run
    exact doesOk run (enteredIdle (idleModes idle modes) m)

theorem leftIdle {m : Mode} {t : Session} (idle : Idle s) (ok : left m s = .ok t) : Idle t := by
  obtain ⟨⟨declarations, current, kept⟩, none⟩ := idle
  cases m with
  | frame | world | attributes | solid =>
    simp only [left, State.popAttributes] at ok
    split at ok
    · cases ok
    · rename_i top rest frames
      cases ok
      rw [frames] at kept
      exact ⟨⟨declarations, kept top (List.mem_cons_self ..),
        fun f mem => kept f (List.mem_cons_of_mem _ mem)⟩, none⟩
  | transform =>
    simp only [left, State.popTransform] at ok
    split at ok
    · cases ok
    · cases ok
      exact ⟨⟨declarations, current, kept⟩, none⟩
  | context | motion | object | resource | archive =>
    cases ok
    exact ⟨⟨declarations, current, kept⟩, none⟩

theorem leftUnderflow {m : Mode} {p : Problem} (refused : left m s = .error p) : p.IsUnderflow := by
  cases m with
  | frame | world | attributes | solid =>
    simp only [left, State.popAttributes] at refused
    split at refused
    · cases refused
      exact ⟨rfl, .inl rfl⟩
    · cases refused
  | transform =>
    simp only [left, State.popTransform] at refused
    split at refused
    · cases refused
      exact ⟨rfl, .inr rfl⟩
    · cases refused
  | context | motion | object | resource | archive => cases refused

theorem doesLeave (idle : Idle s) {m : Mode} (closes : Mode.closedBy r.kind = some m) :
    Does (Unmoved r s) Idle (leave m) s := by
  have run := leaveRun m s
  cases popped : s.modes.pop m with
  | error p =>
    rw [popped] at run
    exact doesError run (unmovedSame (Problem.expectedNoUnderflow (popExpected popped)))
  | ok modes =>
    rw [popped] at run
    dsimp only at run
    cases ends : left m { s with modes } with
    | ok t =>
      rw [ends] at run
      exact doesOk run (leftIdle (idleModes idle modes) ends)
    | error p =>
      rw [ends] at run
      exact doesError run (.popped (leftUnderflow ends) closes popped)

theorem doesEndContext (idle : Idle s) : Does (Unmoved r s) Idle endContext s := by
  refine doesGet (doesBind (doesOk rfl (idleModes idle s.modes.teardown.1)) fun _ t run idle => ?_)
  split
  · exact doesReport idle _
  · exact doesOk rfl idle

theorem doesSolid (idle : Idle s) : Does (Unmoved r s) Idle (beginSolid r) s := by
  refine doesLift (Args.safeRead Args.safeString r) (fun _ => unmovedSame) fun operation _ => ?_
  have opens : Does (Unmoved r s) Idle (do
      enter .solid
      if operation ≠ "primitive" then
        let p := Problem.of .unimplemented s!"SolidBegin \"{operation}\": members are emitted unchanged"
        Run.report (p.atLine r.line) : Run Unit) s := by
    refine doesBind (doesEnter idle .solid) fun _ t _ idle => ?_
    split
    · exact doesReport idle _
    · exact doesOk rfl idle
  dsimp only
  split
  · exact opens
  · exact doesError rfl (unmovedSame fun underflow => nomatch underflow.1)

theorem doesDeclare (idle : Idle s) : Does (Unmoved r s) Idle (declare r) s := by
  obtain ⟨⟨declarations, attributes⟩, none⟩ := idle
  refine doesLift (Args.safeRead ?_ r) (fun _ => unmovedSame) fun x _ => ?_
  · exact safeBind Args.safeString fun _ => safeBind Args.safeString fun _ => safePure _
  · obtain ⟨name, text⟩ := x
    refine doesGet (doesLift (Outcome.safeIs (Dictionary.safeDeclare s.dictionary name text))
      (fun _ => unmovedSame) fun y done => ?_)
    obtain ⟨d, n, replaced⟩ := y
    have samples := Dictionary.declareColorSamples done
    have after : Idle { s with dictionary := d } :=
      ⟨⟨Dictionary.declarePositive declarations done, samples.symm ▸ attributes⟩, none⟩
    refine doesBind (H := Idle) (doesOk rfl after) fun _ t _ idle => ?_
    split
    · exact doesReport idle _
    · exact doesOk rfl idle

theorem doesColorSamples (idle : Idle s) : Does (Unmoved r s) Idle (colorSamples r) s := by
  refine doesLift (Args.safeRead ?_ r) (fun _ => unmovedSame) fun x _ => ?_
  · exact safeBind Args.safeFloatArray fun _ => safeBind Args.safeFloatArray fun _ => safePure _
  · obtain ⟨there, back⟩ := x
    have sets : Does (Unmoved r s) Idle (do
        let d ← Run.lift ((← get).dictionary.setColorSamples (there / 3))
        modify fun s =>
          { s with dictionary := d, state := s.state.setColorSamples (there / 3) }) s := by
      refine doesGet (doesLift (Outcome.safeIs (Dictionary.safeSetColorSamples s.dictionary _))
        (fun _ => unmovedSame) fun d done => ?_)
      have same := Dictionary.setColorSamplesTo done
      refine doesOk rfl ⟨⟨Dictionary.samplesPositive idle.furnished.declarations done, ?_⟩, idle.idle⟩
      exact same.symm ▸ State.setColorSamplesInRange _ idle.furnished.attributes
    dsimp only
    split
    · exact doesError rfl (unmovedSame fun underflow => nomatch underflow.1)
    · exact sets

structure Opted (r : Request) (s t : Session) : Prop where
  grows : s.dictionary.Grows t.dictionary
  layout : t.layout = s.layout ∨ NamesLayout r t.layout
  same : t = { s with dictionary := t.dictionary, layout := t.layout }

theorem optedUnmoved {t : Session} (opted : Opted r s t) (option : r.kind = .setOption)
    {p : Problem} (clear : ¬ p.IsUnderflow) : Unmoved r s p t := by
  obtain ⟨grows, layout, same⟩ := opted
  rw [same]
  rcases layout with kept | named
  · rw [kept]
    exact .entered clear grows
  · exact .switched clear grows option named

theorem optedGrows {t : Session} (opted : Opted r s t) {d : Dictionary}
    (grows : t.dictionary.Grows d) : Opted r s { t with dictionary := d } := by
  obtain ⟨before, layout, same⟩ := opted
  refine ⟨Dictionary.growsTrans before grows, layout, ?_⟩
  rw [same]

theorem doesLayoutOption {t : Session} (option : r.kind = .setOption) (opted : Opted r s t)
    {x : TokenValue} (given : x.value ∈ r.params) :
    Does (Unmoved r s) (Opted r s) (layoutOption x) t := by
  refine doesDeclaring (Declaring.resolveEnds x.token t.dictionary)
    (fun p d clear grows => optedUnmoved (optedGrows opted grows) option clear) ?_
  intro y d grows _
  have after := optedGrows opted grows
  dsimp only
  split
  · split
    · rename_i layout named
      obtain ⟨before, -, same⟩ := after
      refine doesOk rfl ⟨before, .inr ⟨x.value, given, ?_⟩, ?_⟩
      · cases text : x.value.string? with
        | none =>
          rw [text] at named
          cases named
        | some name =>
          rw [text] at named
          exact ⟨name, rfl, named⟩
      · rw [same]
    · exact doesError rfl (optedUnmoved after option fun underflow => nomatch underflow.1)
  · exact doesOk rfl after

theorem doesOption (idle : Idle s) (option : r.kind = .setOption) :
    Does (Unmoved r s) Idle (Session.option r) s := by
  -- Along the pairs, against the session before all of them: a layout that was taken stays taken.
  have loop (l : List TokenValue) (given : ∀ x ∈ l, x.value ∈ r.params) (t : Session)
      (opted : Opted r s t) : Does (Unmoved r s) (Opted r s) (l.forM layoutOption) t := by
    induction l generalizing t with
    | nil => exact doesOk rfl opted
    | cons x l ih =>
      refine doesBind (doesLayoutOption option opted (given x (List.mem_cons_self ..))) ?_
      exact fun _ u _ opted => ih (fun y mem => given y (List.mem_cons_of_mem _ mem)) u opted
  refine doesLift (optionGiven r) (fun _ => unmovedSame) fun list given => ?_
  refine doesMono (loop list given s ⟨.refl, .inl rfl, rfl⟩) fun t opted => ?_
  obtain ⟨grows, -, same⟩ := opted
  have after := idleGrows idle grows
  rw [same]
  exact ⟨⟨after.furnished.declarations, after.furnished.attributes⟩, idle.idle⟩

theorem doesTransform (idle : Idle s) : Does (Unmoved r s) Idle (do
    let state ← Run.lift ((← get).state.applyTransform r)
    modify fun s => { s with state }) s := by
  refine doesGet (doesLift (State.applyTransformPlaces r s.state) (fun _ => unmovedSame) ?_)
  exact fun state placed => doesOk rfl
    ⟨⟨idle.furnished.declarations, State.placedInRange idle.furnished.attributes placed⟩, idle.idle⟩

theorem doesAttributes (idle : Idle s) : Does (Unmoved r s) Idle (do
    let state ← Run.declaring ((← get).state.applyAttribute r)
    modify fun s => { s with state }) s := by
  refine doesGet (doesDeclaring (State.applyAttributeEnds r s.state s.dictionary)
    (fun p d => .entered) fun state d grows styled => ?_)
  have same := Dictionary.growsColorSamples grows
  exact doesOk rfl ⟨⟨Dictionary.growsPositive grows idle.furnished.declarations,
    same.symm ▸ State.styledInRange idle.furnished.attributes styled⟩, idle.idle⟩

theorem doesTessellate (idle : Idle s) : Does (Unmoved r s) Idle (tessellate r) s := by
  obtain ⟨d, grows, ⟨l, run⟩ | ⟨p, run, clear, -⟩⟩ := tessellateRun idle.furnished r
  · have after := idleGrows idle grows
    exact doesOk run ⟨⟨after.furnished.declarations, after.furnished.attributes⟩, idle.idle⟩
  · exact doesError run (.entered clear grows)

theorem doesPlain (play : Player) (direct : plays r.kind = false) (idle : Idle s) :
    Does (Unmoved r s) Idle (applyPlain play r) s := by
  unfold applyPlain
  dsimp only
  split
  · exact doesDeclare idle
  · refine doesLift (Args.safeRead (Args.safeWord _ _) r) (fun _ => unmovedSame) fun mode _ => ?_
    exact doesOk rfl ⟨⟨idle.furnished.declarations, idle.furnished.attributes⟩, idle.idle⟩
  · rename_i kind
    rw [kind] at direct
    cases direct
  · rename_i kind
    rw [kind] at direct
    cases direct
  · exact doesColorSamples idle
  · rename_i kind
    exact doesOption idle kind
  · exact doesReport idle _
  · exact doesReport idle _
  · split
    · exact doesTransform idle
    · exact doesAttributes idle
    · exact doesAttributes idle
    · exact doesTessellate idle
    · exact doesOk rfl idle

end Handlers

end SceneStream.Session
