import SceneStream.Proofs.Session.Reachable
import SceneStream.Proofs.Session.Veil

/-! The seat of a session: its options and its files, how deep it stands and in which stream. Whatever is
asked of a session, it has its seat again when that is done. -/
namespace SceneStream.Session
open SceneStream.Work

def GivesBack (f : Session → Request → Session) : Prop := ∀ s r, (f s r).seat = s.seat

section GivesBack
variable {f : Session → Request → Session} {play : Player}

theorem takeSeat (back : GivesBack f) (s : Session) (x : Stream.Item) : (take f s x).seat = s.seat := by
  unfold take
  split
  · rfl
  · split
    · exact back s _
    · split <;> rfl
    · exact reportSeat _ s

theorem itemsSeat (back : GivesBack f) (l : List Stream.Item) (s : Session) :
    (l.foldl (take f) s).seat = s.seat := by
  induction l generalizing s with
  | nil => rfl
  | cons x l ih => exact (ih (take f s x)).trans (takeSeat back s x)

theorem readSeat (back : GivesBack f) (source : Stream.Source) (name : String) (s : Session) :
    (readWith f source name s).seat = s.seat :=
  congrArg (fun x : Seat => { x with stream := s.stream })
    (itemsSeat back source.items { s with stream := some name })

theorem playedSeat (back : GivesBack f) {work : (Session → Request → Session) → Session → Session}
    (played : Plays work) (s : Session) : (work f s).seat = s.seat := by
  cases played with
  | requests rs =>
    induction rs generalizing s with
    | nil => rfl
    | cons r rs ih => exact (ih (f s r)).trans (back s r)
  | stream source name => exact readSeat back source name s

theorem seatedDeeper (back : ∀ f, play = some f → GivesBack f) (kind : RequestKind)
    {work : (Session → Request → Session) → Session → Session} (played : Plays work) :
    Keeps seat (deeper play kind work) := by
  intro s
  cases play with
  | none => rfl
  | some f =>
    have inside := playedSeat (back f rfl) played { s with depth := s.depth + 1 }
    rw [deeperRun]
    exact congrArg (fun x : Seat => { x with depth := s.depth }) inside

end GivesBack

/-! What plays no other requests also leaves as it was whether the session is fresh. -/

def place (s : Session) : Seat × Bool := (s.seat, s.isFresh)

theorem veiledPlace {α : Type} {m : Run α} (veiled : Veiled m) : Keeps place m := by
  intro s
  have run := veiled.run ⟨s.archives, s.objects, s.recording, s.files, s.depth, s.isFresh, s.notices⟩
    { s with notices := [] }
  have fresh : (m.run s).2.isFresh = s.isFresh := congrArg (fun x => x.2.isFresh) run
  exact Prod.ext (veiled.seated s) fresh

section Place
variable {play : Player}

theorem placedEnter (m : Mode) : Keeps place (enter m) :=
  keepsGet fun _ => keepsBind (fun _ => rfl) fun _ _ => by cases m <;> rfl

theorem placedApply (play : Player) {r : Request} (direct : plays r.kind = false) :
    Keeps place (apply play r) := by
  cases inner : begins r.kind with
  | false => exact veiledPlace (veiledApply play direct inner)
  | true =>
    unfold begins at inner
    split at inner
    · rename_i kind
      simp only [apply, kind, Mode.openedBy]
      exact placedEnter .context
    · rename_i kind
      simp only [apply, kind]
      exact keepsBind (fun _ => rfl) fun _ => keepsBind (placedEnter .object) fun _ _ => rfl
    · rename_i kind
      simp only [apply, kind]
      exact keepsBind (fun _ => rfl) fun _ => keepsBind (placedEnter .archive) fun _ _ => rfl
    · cases inner

theorem placedFinish (x : Recording) (r : Request) : Keeps place (finishRecording x r) := by
  have kept : Keeps place (keep x) := by
    refine keepsBind (fun _ => rfl) fun _ => ?_
    split
    · exact keepsBind (veiledPlace (veiledLeave .object)) fun _ _ => rfl
    · exact keepsBind (veiledPlace (veiledLeave .archive)) fun _ _ => rfl
  exact keepsBind kept fun _ _ => rfl

theorem placedRecordArchive (x : Recording) (r : Request) : Keeps place (recordArchive x r) := by
  unfold recordArchive
  dsimp only
  split
  · exact fun _ => rfl
  · exact placedFinish x r
  · exact fun _ => rfl
  · exact fun _ => rfl

theorem placedRecordObject (x : Recording) (r : Request) : Keeps place (recordObject x r) := by
  intro s
  rw [recordObjectRun]
  cases s.check r with
  | error p => rfl
  | ok _ =>
    dsimp only
    split
    · exact placedFinish x r s
    · cases followed s.modes r.kind <;> rfl

theorem placedRecording (play : Player) {s : Session} {x : Recording} (recording : s.recording = some x)
    (r : Request) : place ((dispatch play r).run s).2 = place s := by
  simp only [dispatch, runBind, runGet, recording]
  split
  · exact placedRecordArchive x r s
  · exact placedRecordObject x r s

end Place

section GivesBack
variable {play : Player}

theorem seatedApply (back : ∀ f, play = some f → GivesBack f) (r : Request) :
    Keeps seat (apply play r) := by
  intro s
  cases others : plays r.kind with
  | false => exact congrArg Prod.fst (placedApply play others s)
  | true =>
    obtain ⟨p, -, failed⟩ | ⟨work, played, run⟩ := playsApply play others s
    · rw [failed]
    · rw [run]
      exact seatedDeeper back r.kind played s

theorem seatedExecute (back : ∀ f, play = some f → GivesBack f) (r : Request) :
    Keeps seat (execute play r) := by
  intro s
  have applied := seatedApply back r (sampled s r)
  have run := executed play s r
  generalize (execute play r).run s = ran at run
  cases run with
  | confirmed => rfl
  | refused => rfl
  | passed => rfl
  | applied _ _ _ run =>
    rw [run] at applied
    exact applied
  | failed _ _ _ run =>
    rw [run] at applied
    exact applied

theorem seatedDispatch (back : ∀ f, play = some f → GivesBack f) (r : Request) :
    Keeps seat (dispatch play r) := by
  intro s
  cases recording : s.recording with
  | some x => exact congrArg Prod.fst (placedRecording play recording r)
  | none =>
    rw [dispatchIdle play recording]
    exact seatedExecute back r s

theorem stepSeat (back : ∀ f, play = some f → GivesBack f) : GivesBack (step play) := by
  intro s r
  have after := seatedDispatch back r s
  unfold step
  split
  · rfl
  · split
    · rename_i run
      rw [run] at after
      exact after
    · rename_i p t run
      rw [run] at after
      exact ((veiledFail _).seated t).trans after

end GivesBack

theorem processAtSeat (n : Nat) : GivesBack (processAt n) := by
  induction n with
  | zero => exact stepSeat nofun
  | succ n ih =>
    refine stepSeat fun f same => ?_
    cases same
    exact ih

theorem processSeat : GivesBack process := fun s r => processAtSeat _ s r

theorem reachableOptions {options : SessionOptions} {files : Files} {s : Session}
    (reached : Reachable options files s) : s.options = options := by
  induction reached with
  | start => rfl
  | request n r _ ih => exact (congrArg Seat.options (processAtSeat n _ r)).trans ih
  | item n x _ ih => exact (congrArg Seat.options (takeSeat (processAtSeat n) _ x)).trans ih
  | stream _ _ ih => exact ih
  | play _ ih => exact ih

end SceneStream.Session
