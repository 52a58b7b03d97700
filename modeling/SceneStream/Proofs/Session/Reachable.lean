import SceneStream.Proofs.Session.Dispatch

/-! Sessions that a run comes to, also inside of the archives and objects that it plays. What holds at the
start, and is kept by every request that plays no others, holds of all of them. -/
namespace SceneStream.Session
open SceneStream.Work

/-- Carried out at once, or written down: plays no other requests. -/
def Direct (s : Session) (r : Request) : Prop := s.recording = none → plays r.kind = false

inductive Reachable (options : SessionOptions) (files : Files) : Session → Prop where
  | start : Reachable options files (start options files)
  | request {s : Session} (n : Nat) (r : Request) (before : Reachable options files s) :
      Reachable options files (processAt n s r)
  | item {s : Session} (n : Nat) (x : Stream.Item) (before : Reachable options files s) :
      Reachable options files (take (processAt n) s x)
  /-- A stream begins, or has ended. -/
  | stream {s : Session} (name : Option String) (before : Reachable options files s) :
      Reachable options files { s with stream := name }
  /-- An archive or an object begins to be played, in the midst of the request that plays it. -/
  | play {s : Session} (before : Reachable options files s) :
      Reachable options files
        { s with isFresh := false, motion := s.motion.map (· + 1), depth := s.depth + 1 }

/-- Nothing differs but what is told, and what is counted or noted on the way. -/
structure Alike (s t : Session) : Prop where
  options : t.options = s.options
  dictionary : t.dictionary = s.dictionary
  modes : t.modes = s.modes
  state : t.state = s.state
  recording : t.recording = s.recording
  fresh : t.isFresh = true → s.isFresh = true

theorem alikeReport (s : Session) (p : Problem) : Alike s (s.report p) := by
  unfold report
  dsimp only
  split <;> exact ⟨rfl, rfl, rfl, rfl, rfl, id⟩

theorem alikeFail (s : Session) (p : Problem) : Alike s (s.fail p) := by
  unfold fail
  split
  · exact ⟨rfl, rfl, rfl, rfl, rfl, id⟩
  · exact alikeReport s p

theorem deeperRun (f : Session → Request → Session) (kind : RequestKind)
    (work : (Session → Request → Session) → Session → Session) (s : Session) :
    (deeper (some f) kind work).run s =
      ((if (work f { s with depth := s.depth + 1 }).crashed = true
          then .error (.crash s!"{kind.name}: ended by a request that was played") else .ok ()),
        { work f { s with depth := s.depth + 1 } with depth := s.depth }) := by
  simp only [deeper, runBind, runGet, runModify]
  generalize work f { s with depth := s.depth + 1 } = t
  cases t.crashed <;> rfl

inductive Plays : ((Session → Request → Session) → Session → Session) → Prop where
  | requests (rs : List Request) : Plays fun f s => rs.foldl f s
  | stream (source : Stream.Source) (name : String) : Plays fun f s => readWith f source name s

theorem playsKind {k : RequestKind} (others : plays k = true) :
    k = .objectInstance ∨ k = .readArchive := by
  unfold plays at others
  split at others
  · exact .inl rfl
  · exact .inr rfl
  · cases others

theorem playsInner {k : RequestKind} (others : plays k = true) : k ≠ .beginContext := by
  obtain rfl | rfl := playsKind others <;> decide

theorem playsPlainly (play : Player) {r : Request} (others : plays r.kind = true) :
    apply play r = applyPlain play r := by
  obtain kind | kind := playsKind others <;> simp only [apply, kind, Mode.openedBy, Mode.closedBy]

theorem playless (play other : Player) {r : Request} (direct : plays r.kind = false) :
    apply play r = apply other r := by
  have plainly : applyPlain play r = applyPlain other r := by
    unfold applyPlain
    dsimp only
    split
    · rfl
    · rfl
    · rename_i kind
      rw [kind] at direct
      cases direct
    · rename_i kind
      rw [kind] at direct
      cases direct
    · rfl
    · rfl
    · rfl
    · rfl
    · rfl
  unfold apply
  rw [plainly]

theorem instanceRun (play : Player) {r : Request} (kind : r.kind = .objectInstance) (s : Session) :
    (apply play r).run s = match Args.read r Handle.read with
      | .error p => (.error p, s)
      | .ok h => match s.objects.lookup h with
        | some rs => (replay play .objectInstance rs).run s
        | none => (.error (.of .badHandle s!"ObjectInstance: unknown object {h.describe}"), s) := by
  simp only [apply, kind, Mode.openedBy, Mode.closedBy, applyPlain, runBind, runLift, runGet]
  cases Args.read r Handle.read with
  | error p => rfl
  | ok h =>
    cases found : s.objects.lookup h with
    | none =>
      simp only [found]
      rfl
    | some rs => simp only [found]

theorem archiveRun (play : Player) {r : Request} (kind : r.kind = .readArchive) (s : Session) :
    (apply play r).run s = match Args.read r Args.string with
      | .error p => (.error p, s)
      | .ok name => (readArchive play name).run s := by
  simp only [apply, kind, Mode.openedBy, Mode.closedBy, applyPlain, runBind, runLift]
  cases Args.read r Args.string <;> rfl

theorem playsApply (play : Player) {r : Request} (others : plays r.kind = true) (s : Session) :
    (∃ p, p.Expected ∧ (apply play r).run s = (.error p, s)) ∨
      ∃ work, Plays work ∧ (apply play r).run s = (deeper play r.kind work).run s := by
  obtain kind | kind := playsKind others
  · have safe := Args.safeRead safeHandle r
    rw [instanceRun play kind, kind]
    cases read : Args.read r Handle.read with
    | error p =>
      rw [read] at safe
      exact .inl ⟨p, safe, rfl⟩
    | ok h =>
      dsimp only
      split
      · exact .inr ⟨_, .requests _, rfl⟩
      · exact .inl ⟨_, by rintro ⟨⟩, rfl⟩
  · have safe := Args.safeRead Args.safeString r
    rw [archiveRun play kind, kind]
    cases read : Args.read r Args.string with
    | error p =>
      rw [read] at safe
      exact .inl ⟨p, safe, rfl⟩
    | ok name =>
      simp only [readArchive, runBind, runGet]
      split
      · exact .inr ⟨_, .requests _, rfl⟩
      · split
        · exact .inl ⟨_, by rintro ⟨⟩, rfl⟩
        · split
          · exact .inl ⟨_, by rintro ⟨⟩, rfl⟩
          · exact .inr ⟨_, .stream _ name, rfl⟩

/-- Kept by requests that play no others, and not bound to what is told or counted. -/
structure Invariant (I : Session → Prop) : Prop where
  alike : ∀ {s t}, I s → Alike s t → I t
  direct : ∀ play {s r}, Direct s r → I s → I ((dispatch play r).run s).2

def KeepsAll (I : Session → Prop) (f : Session → Request → Session) : Prop :=
  ∀ s r, I s → I (f s r)

section Invariant
variable {I : Session → Prop} {f : Session → Request → Session} {play : Player}

theorem takeKeeps (invariant : Invariant I) (keeps : KeepsAll I f) (x : Stream.Item) (s : Session)
    (before : I s) : I (take f s x) := by
  unfold take
  split
  · exact before
  · split
    · exact keeps s _ before
    · split
      · exact invariant.alike before ⟨rfl, rfl, rfl, rfl, rfl, id⟩
      · exact before
    · exact invariant.alike before (alikeReport s _)

theorem playedKeeps (invariant : Invariant I) (keeps : KeepsAll I f)
    {work : (Session → Request → Session) → Session → Session} (played : Plays work) (s : Session)
    (before : I s) : I (work f s) := by
  cases played with
  | requests rs =>
    induction rs generalizing s with
    | nil => exact before
    | cons r rs ih => exact ih (f s r) (keeps s r before)
  | stream source name =>
    have items (l : List Stream.Item) (t : Session) (before : I t) : I (l.foldl (take f) t) := by
      induction l generalizing t with
      | nil => exact before
      | cons x l ih => exact ih (take f t x) (takeKeeps invariant keeps x t before)
    have begun : I { s with stream := some name } := invariant.alike before ⟨rfl, rfl, rfl, rfl, rfl, id⟩
    exact invariant.alike (items source.items _ begun) ⟨rfl, rfl, rfl, rfl, rfl, id⟩

theorem deeperKeeps (invariant : Invariant I) (keeps : ∀ f, play = some f → KeepsAll I f)
    (kind : RequestKind) {work : (Session → Request → Session) → Session → Session}
    (played : Plays work) {s : Session} (before : I s) : I ((deeper play kind work).run s).2 := by
  cases play with
  | none => exact before
  | some f =>
    have after := playedKeeps invariant (keeps f rfl) played { s with depth := s.depth + 1 }
      (invariant.alike before ⟨rfl, rfl, rfl, rfl, rfl, id⟩)
    rw [deeperRun]
    exact invariant.alike after ⟨rfl, rfl, rfl, rfl, rfl, id⟩

theorem executeKeeps (invariant : Invariant I) (keeps : ∀ f, play = some f → KeepsAll I f)
    {r : Request} (others : plays r.kind = true) {s : Session} (before : I s) :
    I ((execute play r).run s).2 := by
  have counted : I (sampled s r) := invariant.alike before ⟨rfl, rfl, rfl, rfl, rfl, nofun⟩
  have after : I ((apply play r).run (sampled s r)).2 := by
    obtain ⟨p, -, failed⟩ | ⟨work, played, deeper⟩ := playsApply play others (sampled s r)
    · rw [failed]
      exact counted
    · rw [deeper]
      exact deeperKeeps invariant keeps r.kind played counted
  have run := executed play s r
  generalize (execute play r).run s = ran at run
  cases run with
  | confirmed => exact invariant.alike before ⟨rfl, rfl, rfl, rfl, rfl, nofun⟩
  | refused => exact before
  | passed => exact invariant.alike counted ⟨rfl, rfl, rfl, rfl, rfl, id⟩
  | applied _ _ _ run =>
    rw [run] at after
    exact invariant.alike after ⟨rfl, rfl, rfl, rfl, rfl, id⟩
  | failed _ _ _ run =>
    rw [run] at after
    exact after

theorem dispatchKeeps (invariant : Invariant I) (keeps : ∀ f, play = some f → KeepsAll I f)
    (r : Request) {s : Session} (before : I s) : I ((dispatch play r).run s).2 := by
  by_cases direct : Direct s r
  · exact invariant.direct play direct before
  · obtain ⟨idle, others⟩ := Classical.not_imp.mp direct
    rw [dispatchIdle play idle]
    exact executeKeeps invariant keeps (by simpa using others) before

theorem stepKeeps (invariant : Invariant I) (keeps : ∀ f, play = some f → KeepsAll I f) :
    KeepsAll I (step play) := by
  intro s r before
  unfold step
  split
  · exact before
  · have after := dispatchKeeps invariant keeps r before
    split
    · rename_i run
      rw [run] at after
      exact after
    · rename_i run
      rw [run] at after
      exact invariant.alike after (alikeFail _ _)

theorem processAtKeeps (invariant : Invariant I) (n : Nat) : KeepsAll I (processAt n) := by
  induction n with
  | zero => exact stepKeeps invariant nofun
  | succ n ih =>
    refine stepKeeps invariant fun f same => ?_
    cases same
    exact ih

theorem reachableKeeps (invariant : Invariant I) {options : SessionOptions} {files : Files}
    (begun : I (start options files)) {s : Session} (reached : Reachable options files s) : I s := by
  induction reached with
  | start => exact begun
  | request n r _ ih => exact processAtKeeps invariant n _ r ih
  | item n x _ ih => exact takeKeeps invariant (processAtKeeps invariant n) x _ ih
  | stream name _ ih => exact invariant.alike ih ⟨rfl, rfl, rfl, rfl, rfl, id⟩
  | play _ ih => exact invariant.alike ih ⟨rfl, rfl, rfl, rfl, rfl, nofun⟩

end Invariant

theorem soundInvariant : Invariant fun s => s.shape.Sound where
  alike {s t} sound alike := by
    have same : t.shape = s.shape := by
      unfold shape recordsObject
      rw [alike.modes, alike.state, alike.recording]
    rw [same]
    exact sound
  direct play _ _ direct sound := Shape.moveSound (movesDispatch play direct).move sound

theorem soundStart (options : SessionOptions) (files : Files) : (start options files).shape.Sound :=
  ⟨nofun, .inr ⟨[], rfl, nofun⟩, fun _ _ => ⟨rfl, rfl, rfl⟩⟩

theorem reachableSound {options : SessionOptions} {files : Files} {s : Session}
    (reached : Reachable options files s) : s.shape.Sound :=
  reachableKeeps soundInvariant (soundStart options files) reached

theorem reachableProcess {options : SessionOptions} {files : Files} {s : Session}
    (reached : Reachable options files s) (rs : List Request) :
    Reachable options files (rs.foldl process s) := by
  induction rs generalizing s with
  | nil => exact reached
  | cons r rs ih => exact ih (reached.request _ r)

end SceneStream.Session
