import SceneStream.Proofs.Session.Dispatch

/-! What most requests do not look at: what is stored, how deep the session stands, what has been told.
Behind a veil that hides it they do the same. -/
namespace SceneStream.Session
open SceneStream.Work

structure Veil where
  archives : List (String × List Request)
  objects : List (Handle × List Request)
  recording : Option Recording
  files : Files
  depth : Nat
  isFresh : Bool
  /-- Told before what the session tells of itself. -/
  notices : List Notice

def veil (v : Veil) (s : Session) : Session :=
  { s with
    archives := v.archives, objects := v.objects, recording := v.recording, files := v.files
    depth := v.depth, isFresh := v.isFresh, notices := s.notices ++ v.notices }

@[simp] theorem veilModes (v : Veil) (s : Session) : (s.veil v).modes = s.modes := rfl

@[simp] theorem veilCheck (v : Veil) (s : Session) (r : Request) : (s.veil v).check r = s.check r := rfl

/-- What stays while a request is carried out, and is given back when it has played others. -/
structure Seat where
  options : SessionOptions
  files : Files
  depth : Nat
  stream : Option String

def seat (s : Session) : Seat := ⟨s.options, s.files, s.depth, s.stream⟩

def Keeps {α γ : Type} (g : Session → γ) (m : Run α) : Prop := ∀ s, g (m.run s).2 = g s

/-- Neither looks behind a veil nor changes what is there, and keeps its seat. -/
structure Veiled {α : Type} (m : Run α) : Prop where
  run : ∀ v s, m.run (s.veil v) = ((m.run s).1, (m.run s).2.veil v)
  seated : Keeps seat m

section Keeps
variable {α β γ : Type} {g : Session → γ}

theorem keepsBind {m : Run α} {f : α → Run β} (first : Keeps g m) (next : ∀ a, Keeps g (f a)) :
    Keeps g (m >>= f) := by
  intro s
  have kept := first s
  rw [runBind]
  cases run : m.run s with
  | mk x t =>
    rw [run] at kept
    cases x with
    | error p => exact kept
    | ok a => exact (next a t).trans kept

theorem keepsGet {f : Session → Run β} (each : ∀ s, Keeps g (f s)) : Keeps g (get >>= f) := by
  intro s
  rw [runBind, runGet]
  exact each s s

end Keeps

section Veiled
variable {α β : Type}

theorem veiledPure (a : α) : Veiled (pure a) := ⟨fun _ _ => rfl, fun _ => rfl⟩

theorem veiledThrow (p : Problem) : Veiled (throw p : Run α) := ⟨fun _ _ => rfl, fun _ => rfl⟩

theorem veiledLift (x : Except Problem α) : Veiled (Run.lift x) := ⟨fun _ _ => rfl, fun _ => rfl⟩

theorem veiledDeclaring (m : Declaring α) : Veiled (Run.declaring m) :=
  ⟨fun _ _ => rfl, fun _ => rfl⟩

theorem veiledTell (n : Notice) : Veiled (Run.tell n) := ⟨fun _ _ => rfl, fun _ => rfl⟩

theorem veiledModify {g : Session → Session} (commutes : ∀ v s, g (s.veil v) = (g s).veil v)
    (seat : ∀ s, (g s).seat = s.seat) : Veiled (modify g) :=
  ⟨fun v s => congrArg (Prod.mk _) (commutes v s), seat⟩

theorem veiledBind {m : Run α} {f : α → Run β} (first : Veiled m) (next : ∀ a, Veiled (f a)) :
    Veiled (m >>= f) := by
  refine ⟨fun v s => ?_, keepsBind first.seated fun a => (next a).seated⟩
  rw [runBind, runBind, first.run]
  cases m.run s with
  | mk x t =>
    cases x with
    | error p => rfl
    | ok a => exact (next a).run v t

theorem veiledGet {f : Session → Run β} (same : ∀ v s, f (s.veil v) = f s)
    (each : ∀ s, Veiled (f s)) : Veiled (get >>= f) := by
  refine ⟨fun v s => ?_, keepsGet fun s => (each s).seated⟩
  rw [runBind, runBind, runGet, runGet]
  dsimp only
  rw [same]
  exact (each s).run v s

theorem veiledForM {f : α → Run Unit} (each : ∀ a, Veiled (f a)) (l : List α) :
    Veiled (l.forM f) := by
  induction l with
  | nil => exact veiledPure ()
  | cons a l ih => exact veiledBind (each a) fun _ => ih

end Veiled

theorem reportVeil (p : Problem) (v : Veil) (s : Session) :
    (s.veil v).report p = (s.report p).veil v := by
  unfold report
  dsimp only [veil]
  split <;> rfl

theorem reportSeat (p : Problem) (s : Session) : (s.report p).seat = s.seat := by
  unfold report
  dsimp only
  split <;> rfl

theorem veiledReport (p : Problem) : Veiled (Run.report p) :=
  veiledModify (reportVeil p) (reportSeat p)

theorem veiledFail (p : Problem) : Veiled (modify (Session.fail p)) := by
  refine veiledModify (fun v s => ?_) fun s => ?_
  · unfold fail
    split
    · rfl
    · exact reportVeil p v s
  · unfold fail
    split
    · rfl
    · exact reportSeat p s

/-! Blocks. -/

theorem veiledEnter {m : Mode} (inner : m ≠ .context) : Veiled (enter m) := by
  refine veiledGet (fun _ _ => rfl) fun _ => veiledBind (veiledLift _) fun modes => ?_
  cases m with
  | context => exact absurd rfl inner
  | _ => exact veiledModify (fun _ _ => rfl) fun _ => rfl

theorem veiledLeave (m : Mode) : Veiled (leave m) := by
  refine veiledGet (fun _ _ => rfl) fun _ => veiledBind (veiledLift _) fun modes => ?_
  refine veiledBind (veiledModify (fun _ _ => rfl) fun _ => rfl) fun _ => ?_
  cases m with
  | frame | world | attributes | solid | transform =>
    exact veiledGet (fun _ _ => rfl) fun _ => veiledBind (veiledLift _) fun state =>
      veiledModify (fun _ _ => rfl) fun _ => rfl
  | motion => exact veiledModify (fun _ _ => rfl) fun _ => rfl
  | context | object | resource | archive => exact veiledPure ()

theorem veiledEndContext : Veiled endContext := by
  refine veiledGet (fun _ _ => rfl) fun s => ?_
  refine veiledBind (veiledModify (fun _ _ => rfl) fun _ => rfl) fun _ => ?_
  split
  · exact veiledReport _
  · exact veiledPure ()

theorem veiledSolid (r : Request) : Veiled (beginSolid r) := by
  refine veiledBind (veiledLift _) fun operation => ?_
  have opened : Veiled (do
      enter .solid
      if operation ≠ "primitive" then
        let p := Problem.of .unimplemented s!"SolidBegin \"{operation}\": members are emitted unchanged"
        Run.report (p.atLine r.line) : Run Unit) := by
    refine veiledBind (veiledEnter (by decide)) fun _ => ?_
    split
    · exact veiledReport _
    · exact veiledPure ()
  dsimp only
  split
  · exact opened
  · exact veiledThrow _

/-! Requests that neither open nor close a block. -/

theorem veiledEmit (x : Surface) : Veiled (emit x) := by
  refine veiledGet (fun _ _ => rfl) fun s => ?_
  dsimp only
  split
  · exact veiledThrow _
  · exact veiledTell _

theorem veiledTessellate (r : Request) : Veiled (tessellate r) := by
  refine veiledGet (fun _ _ => rfl) fun s => veiledBind (veiledDeclaring _) fun outcome => ?_
  cases outcome with
  | surfaces l => exact veiledForM veiledEmit l
  | bound vars => exact veiledTell _
  | deferred => exact veiledPure ()

theorem veiledLayoutOption (t : TokenValue) : Veiled (layoutOption t) := by
  refine veiledBind (veiledDeclaring _) fun x => ?_
  split
  · dsimp only
    split
    · exact veiledModify (fun _ _ => rfl) fun _ => rfl
    · exact veiledThrow _
  · exact veiledPure ()

theorem veiledDeclare (r : Request) : Veiled (declare r) := by
  refine veiledBind (veiledLift _) fun x => veiledGet (fun _ _ => rfl) fun s => ?_
  refine veiledBind (veiledLift _) fun y => ?_
  refine veiledBind (veiledModify (fun _ _ => rfl) fun _ => rfl) fun _ => ?_
  split
  · exact veiledReport _
  · exact veiledPure ()

theorem veiledColorSamples (r : Request) : Veiled (colorSamples r) := by
  refine veiledBind (veiledLift _) fun x => ?_
  have set : Veiled (do
      let d ← Run.lift ((← get).dictionary.setColorSamples (x.1 / 3))
      modify fun s => { s with dictionary := d, state := s.state.setColorSamples (x.1 / 3) }) :=
    veiledGet (fun _ _ => rfl) fun _ => veiledBind (veiledLift _) fun d =>
      veiledModify (fun _ _ => rfl) fun _ => rfl
  dsimp only
  split
  · exact veiledThrow _
  · exact set

theorem veiledState (r : Request) : Veiled (do
    let state ← Run.lift ((← get).state.applyTransform r)
    modify fun s => { s with state }) :=
  veiledGet (fun _ _ => rfl) fun _ => veiledBind (veiledLift _) fun _ =>
    veiledModify (fun _ _ => rfl) fun _ => rfl

theorem veiledAttributes (r : Request) : Veiled (do
    let state ← Run.declaring ((← get).state.applyAttribute r)
    modify fun s => { s with state }) :=
  veiledGet (fun _ _ => rfl) fun _ => veiledBind (veiledDeclaring _) fun _ =>
    veiledModify (fun _ _ => rfl) fun _ => rfl

theorem veiledPlain (play : Player) {r : Request} (direct : plays r.kind = false) :
    Veiled (applyPlain play r) := by
  unfold applyPlain
  dsimp only
  split
  · exact veiledDeclare r
  · exact veiledBind (veiledLift _) fun mode => veiledModify (fun _ _ => rfl) fun _ => rfl
  · rename_i kind
    rw [kind] at direct
    cases direct
  · rename_i kind
    rw [kind] at direct
    cases direct
  · exact veiledColorSamples r
  · exact veiledBind (veiledLift _) fun list => veiledForM veiledLayoutOption list
  · exact veiledReport _
  · exact veiledReport _
  · split
    · exact veiledState r
    · exact veiledAttributes r
    · exact veiledAttributes r
    · exact veiledTessellate r
    · exact veiledPure ()

def begins : RequestKind → Bool
  | .beginContext | .objectBegin | .archiveBegin => true
  | _ => false

theorem veiledApply (play : Player) {r : Request} (direct : plays r.kind = false)
    (inner : begins r.kind = false) : Veiled (apply play r) := by
  unfold apply
  split
  · exact veiledEndContext
  · exact veiledPure ()
  · exact veiledPure ()
  · exact veiledSolid r
  · rename_i kind
    rw [kind] at inner
    cases inner
  · rename_i kind
    rw [kind] at inner
    cases inner
  · split
    · rename_i m opened
      refine veiledEnter fun same => ?_
      have kind : r.kind = .beginContext := openedContext (same ▸ opened)
      rw [kind] at inner
      cases inner
    · exact veiledLeave _
    · exact veiledPlain play direct

end SceneStream.Session
