import SceneStream.Proofs.Session.Seat

/-! Archives and objects played on a stack of levels, one item after the other and with no bound on the
work. It comes to an end whatever is stored, stands no deeper than the limit at any time, and leaves what
`process` leaves. -/
namespace SceneStream.Session
open SceneStream.Work

instance (s : Session) (r : Request) : Decidable (IsLater s r) :=
  match motion : s.motion with
  | some (_ + 1) => decidable_of_iff (r.kind ≠ .motionEnd) (by simp [IsLater, motion])
  | some 0 => isFalse (by simp [IsLater, motion])
  | none => isFalse (by simp [IsLater, motion])

structure Script where
  stream : Option String
  items : List Stream.Item

def Script.stored (s : Session) (rs : List Request) : Script := ⟨s.stream, rs.map fun r => .ok (.request r)⟩

def named? (s : Session) (r : Request) : Option Script :=
  match r.kind with
  | .objectInstance => do
    let h ← (Args.read r Handle.read).toOption
    return .stored s (← s.objects.lookup h)
  | .readArchive => do
    let name ← (Args.read r Args.string).toOption
    match s.archives.lookup name with
    | some rs => return .stored s rs
    | none => return ⟨some name, (← (s.files.openSource (s.options.archivePath name)).toOption).items⟩
  | _ => none

def script? (s : Session) (r : Request) : Option Script :=
  if s.aborted = false ∧ s.carries r = true ∧ ¬ IsLater s r then s.named? r else none

structure Level where
  request : Request
  outer : Option String
  left : List Stream.Item

/-- A session, and the levels that are being played: the innermost first. -/
structure Playback where
  session : Session
  levels : List Level

def opened (s : Session) (r : Request) (x : Script) : Session :=
  { sampled s r with depth := s.depth + 1, stream := x.stream }

/-- A program that has ended does not come back to the request. -/
def closed (r : Request) (outer : Option String) (s : Session) : Session :=
  let s := { s with depth := s.depth - 1, stream := outer }
  if s.crashed then { s with aborted := true, crashed := true } else tell (.done r) s

namespace Playback

/-- What a request plays is put on the stack; anything else is done at once. -/
def meet (s : Session) (r : Request) (levels : List Level) : Playback :=
  if s.depth < s.options.maxDepth then
    match s.script? r with
    | some x => ⟨opened s r x, ⟨r, s.stream, x.items⟩ :: levels⟩
    | none => ⟨step (some fun t _ => t) s r, levels⟩
  else ⟨step none s r, levels⟩

def offer (s : Session) (x : Stream.Item) (levels : List Level) : Playback :=
  match x with
  | .ok (.request r) => meet s r levels
  | x => ⟨take (fun t _ => t) s x, levels⟩

/-- One item is taken, or a level ends; without levels there is nothing left to do. -/
def next (p : Playback) : Option Playback :=
  match p.levels with
  | [] => none
  | ⟨r, outer, []⟩ :: levels => some ⟨closed r outer p.session, levels⟩
  | ⟨r, outer, x :: left⟩ :: levels => some (offer p.session x (⟨r, outer, left⟩ :: levels))

def after : Nat → Playback → Option Playback
  | 0, p => some p
  | n + 1, p => p.next.bind (after n)

end Playback

/-! A request asks its player for what it plays, and for nothing else. -/

def Stops (f : Session → Request → Session) : Prop := ∀ s r, s.aborted = true → f s r = s

def playing (x : Script) (f : Session → Request → Session) (s : Session) : Session :=
  { x.items.foldl (take f) { s with stream := x.stream } with stream := s.stream }

theorem openedRoom {s : Session} {n : Nat} (room : s.options.maxDepth - s.depth = n + 1) (r : Request)
    (x : Script) : (opened s r x).options.maxDepth - (opened s r x).depth = n :=
  (Nat.sub_succ ..).trans (congrArg Nat.pred room)

theorem takeRequest {f : Session → Request → Session} (stops : Stops f) (s : Session) (r : Request) :
    take f s (.ok (.request r)) = f s r := by
  unfold take
  split
  · exact (stops s r ‹_›).symm
  · rfl

theorem takeSame {f g : Session → Request → Session} {s : Session} {x : Stream.Item}
    (same : ∀ r, x = .ok (.request r) → f s r = g s r) : take f s x = take g s x := by
  unfold take
  split
  · rfl
  · split
    · exact same _ rfl
    · rfl
    · rfl

theorem storedItems {f : Session → Request → Session} (stops : Stops f) (rs : List Request) (s : Session) :
    (rs.map fun r => .ok (.request r)).foldl (take f) s = rs.foldl f s := by
  induction rs generalizing s with
  | nil => rfl
  | cons r rs ih => rw [List.map_cons, List.foldl_cons, List.foldl_cons, takeRequest stops, ih]

theorem storedPlaying {f : Session → Request → Session} (back : GivesBack f) (stops : Stops f)
    {s t : Session} (same : t.stream = s.stream) (rs : List Request) :
    playing (.stored s rs) f t = rs.foldl f t := by
  have whole {u : Session} (kept : u.stream = t.stream) : { u with stream := t.stream } = u := by rw [← kept]
  have stream : (rs.foldl f t).stream = t.stream := congrArg Seat.stream (playedSeat back (.requests rs) t)
  unfold playing Script.stored
  dsimp only
  rw [storedItems stops, ← same]
  exact whole stream

inductive Asks (s : Session) (r : Request) : Prop where
  | nothing {p : Problem} (none : s.named? r = none)
      (refused : ∀ f, (apply (some f) r).run s = (.error p, s)) : Asks s r
  | script {x : Script} (named : s.named? r = some x)
      (plays : ∀ f, GivesBack f → Stops f →
        (apply (some f) r).run s = (deeper (some f) r.kind (playing x)).run s) : Asks s r

theorem storedReplay {f : Session → Request → Session} (back : GivesBack f) (stops : Stops f)
    (kind : RequestKind) (s : Session) (rs : List Request) : (replay (some f) kind rs).run s =
      (deeper (some f) kind (playing (.stored s rs))).run s := by
  have same := storedPlaying back stops (s := s) (t := { s with depth := s.depth + 1 }) rfl rs
  rw [replay, deeperRun, deeperRun, same]

theorem asks {r : Request} (others : plays r.kind = true) (s : Session) : Asks s r := by
  obtain kind | kind := playsKind others
  · cases read : Args.read r Handle.read with
    | error p =>
      have run (f : Session → Request → Session) := instanceRun (some f) kind s
      simp only [read] at run
      exact .nothing (by simp [named?, kind, read, Except.toOption]) run
    | ok h =>
      cases found : s.objects.lookup h with
      | none =>
        have run (f : Session → Request → Session) := instanceRun (some f) kind s
        simp only [read, found] at run
        exact .nothing (by simp [named?, kind, read, found, Except.toOption]) run
      | some rs =>
        refine .script (x := .stored s rs) (by simp [named?, kind, read, found, Except.toOption]) ?_
        intro f back stops
        simp only [instanceRun _ kind, read, found, kind]
        exact storedReplay back stops _ s rs
  · cases read : Args.read r Args.string with
    | error p =>
      have run (f : Session → Request → Session) := archiveRun (some f) kind s
      simp only [read] at run
      exact .nothing (by simp [named?, kind, read, Except.toOption]) run
    | ok name =>
      cases found : s.archives.lookup name with
      | some rs =>
        refine .script (x := .stored s rs) (by simp [named?, kind, read, found, Except.toOption]) ?_
        intro f back stops
        simp only [archiveRun _ kind, read, readArchive, runBind, runGet, found, kind]
        exact storedReplay back stops _ s rs
      | none =>
        cases file : s.files.openSource (s.options.archivePath name) with
        | error e =>
          have run (f : Session → Request → Session) := archiveRun (some f) kind s
          simp only [read, readArchive, runBind, runGet, found, file] at run
          exact .nothing (by simp [named?, kind, read, found, file, Except.toOption]) run
        | ok source =>
          refine .script (x := ⟨some name, source.items⟩)
            (by simp [named?, kind, read, found, file, Except.toOption]) fun f _ _ => ?_
          simp only [archiveRun _ kind, read, readArchive, runBind, runGet, found, file, kind]
          rfl

theorem sampledNamed (s : Session) (r : Request) : (sampled s r).named? r = s.named? r := rfl

theorem namedPlays {s : Session} {r : Request} {x : Script} (named : s.named? r = some x) :
    plays r.kind = true := by
  unfold named? at named
  split at named
  · rw [‹r.kind = _›]
    rfl
  · rw [‹r.kind = _›]
    rfl
  · cases named

theorem scriptless {s : Session} {r : Request} (nothing : s.script? r = none)
    (f g : Session → Request → Session) : step (some f) s r = step (some g) s r := by
  have same : s.aborted = false → (dispatch (some f) r).run s = (dispatch (some g) r).run s := by
    intro going
    by_cases direct : Direct s r
    · cases idle : s.recording with
      | some x => simp only [dispatch, runBind, runGet, idle]
      | none => simp only [dispatch, execute, playless (some f) (some g) (direct idle)]
    · obtain ⟨idle, others⟩ := Classical.not_imp.mp direct
      have others : plays r.kind = true := by simpa using others
      have acts : ¬ Confirms s r := innerActs (playsInner others)
      rw [dispatchIdle _ idle, dispatchIdle _ idle]
      cases checked : s.check r with
      | error p => rw [executeRefused _ acts checked, executeRefused _ acts checked]
      | ok _ =>
        obtain ⟨passed, applied⟩ := executeRun (some f) acts checked
        obtain ⟨passed', applied'⟩ := executeRun (some g) acts checked
        by_cases later : IsLater s r
        · rw [passed later, passed' later]
        · have named : (sampled s r).named? r = none := by
            rw [sampledNamed]
            simpa [script?, going, carriesChecked.mpr ⟨idle, checked⟩, later] using nothing
          cases asks others (sampled s r) with
          | nothing _ refused => rw [applied later, applied' later, refused f, refused g]
          | script given => cases named.symm.trans given
  unfold step
  split
  · rfl
  · rename_i going
    rw [same (by simpa using going)]

theorem scripted {s : Session} {r : Request} {x : Script} (given : s.script? r = some x)
    {f : Session → Request → Session} (back : GivesBack f) (stops : Stops f) :
    step (some f) s r = closed r s.stream (x.items.foldl (take f) (opened s r x)) := by
  unfold script? at given
  split at given
  · rename_i stands
    obtain ⟨going, carried, now⟩ := stands
    obtain ⟨idle, checked⟩ := carriesChecked.mp carried
    have others := namedPlays given
    have run := dispatchIdle (some f) idle r
    rw [(executeRun (some f) (innerActs (playsInner others)) checked).2 now] at run
    have inside := itemsSeat back x.items (opened s r x)
    cases asks others (sampled s r) with
    | nothing none =>
      rw [sampledNamed, given] at none
      cases none
    | script named asked =>
      cases given.symm.trans named
      have played : playing x f { sampled s r with depth := s.depth + 1 } =
          { x.items.foldl (take f) (opened s r x) with stream := s.stream } := rfl
      rw [asked f back stops, deeperRun, show (sampled s r).depth = s.depth from rfl, played] at run
      generalize x.items.foldl (take f) (opened s r x) = t at inside run
      have depth : t.depth - 1 = s.depth := congrArg (fun x : Seat => x.depth - 1) inside
      unfold closed
      rw [depth]
      cases crashed : t.crashed with
      | true =>
        simp only [crashed, if_true] at run ⊢
        exact stepFailed going run
      | false =>
        simp only [crashed, Bool.false_eq_true, if_false] at run ⊢
        exact stepDone going run
  · cases given

theorem processAtStops (n : Nat) : Stops (processAt n) := by
  intro s r ended
  cases n <;> simp only [processAt, step, ended, if_true]

namespace Playback

theorem afterAdd (m n : Nat) (p : Playback) : after (m + n) p = (after m p).bind (after n) := by
  induction m generalizing p with
  | zero => simp only [Nat.zero_add, after, Option.bind_some]
  | succ m ih =>
    simp only [Nat.succ_add, after, Option.bind_assoc]
    exact congrArg p.next.bind (funext ih)

def Leads (p q : Playback) : Prop := ∃ n, after n p = some q

theorem leadsTrans {p q u : Playback} (first : Leads p q) (next : Leads q u) : Leads p u := by
  obtain ⟨m, first⟩ := first
  obtain ⟨n, next⟩ := next
  exact ⟨m + n, by rw [afterAdd, first, Option.bind_some, next]⟩

theorem leadsNext {p q u : Playback} (first : p.next = some q) (next : Leads q u) : Leads p u := by
  obtain ⟨n, next⟩ := next
  exact ⟨n + 1, by rw [after, first, Option.bind_some, next]⟩

theorem levelLeads {n : Nat} (meets : ∀ s r levels, s.options.maxDepth - s.depth = n →
      Leads (meet s r levels) ⟨processAt n s r, levels⟩) (r : Request) (outer : Option String)
    (levels : List Level) (l : List Stream.Item) (s : Session)
    (room : s.options.maxDepth - s.depth = n) :
    Leads ⟨s, ⟨r, outer, l⟩ :: levels⟩ ⟨closed r outer (l.foldl (take (processAt n)) s), levels⟩ := by
  induction l generalizing s with
  | nil => exact ⟨1, rfl⟩
  | cons x l ih =>
    have seat := takeSeat (processAtSeat n) s x
    have kept : (take (processAt n) s x).options.maxDepth - (take (processAt n) s x).depth = n :=
      (congrArg (fun x : Seat => x.options.maxDepth - x.depth) seat).trans room
    have offered : Leads (offer s x (⟨r, outer, l⟩ :: levels))
        ⟨take (processAt n) s x, ⟨r, outer, l⟩ :: levels⟩ := by
      unfold offer
      split
      · rename_i q
        rw [takeRequest (processAtStops n)]
        exact meets s q _ room
      · rename_i other
        have same := takeSame (f := fun t _ => t) (g := processAt n) (s := s) fun r is => (other r is).elim
        exact ⟨0, by rw [same]; rfl⟩
    exact leadsNext rfl (leadsTrans offered (ih _ kept))

theorem meetLeads (n : Nat) (s : Session) (r : Request) (levels : List Level)
    (room : s.options.maxDepth - s.depth = n) : Leads (meet s r levels) ⟨processAt n s r, levels⟩ := by
  induction n generalizing s r levels with
  | zero =>
    rw [meet, if_neg (by omega)]
    exact ⟨0, rfl⟩
  | succ n ih =>
    rw [meet, if_pos (by omega)]
    cases given : s.script? r with
    | none => exact ⟨0, by rw [processAt, scriptless given (processAt n)]; rfl⟩
    | some x =>
      rw [processAt, scripted given (processAtSeat n) (processAtStops n)]
      exact levelLeads ih r s.stream levels x.items _ (openedRoom room r x)

/-- On the way, with as many levels open as the session stands deeper than at first. -/
structure Within (s : Session) (p : Playback) : Prop where
  options : p.session.options = s.options
  depth : p.session.depth = s.depth + p.levels.length
  limit : p.session.depth ≤ max s.depth s.options.maxDepth

theorem withinSeat {s t u : Session} {levels : List Level} (within : Within s ⟨t, levels⟩)
    (seat : u.seat = t.seat) : Within s ⟨u, levels⟩ := by
  have depth : u.depth = t.depth := congrArg Seat.depth seat
  exact ⟨(congrArg Seat.options seat).trans within.options, depth.trans within.depth, depth ▸ within.limit⟩

theorem withinMeet {s t : Session} {levels : List Level} (within : Within s ⟨t, levels⟩) (r : Request) :
    Within s (meet t r levels) := by
  unfold meet
  split
  · split
    · rename_i room _ x _
      obtain ⟨options, depth, -⟩ := within
      refine ⟨options, ?_, ?_⟩
      · exact congrArg (· + 1) depth
      · exact Nat.le_trans room (options ▸ Nat.le_max_right _ _)
    · have idle : GivesBack fun t _ => t := fun _ _ => rfl
      have back : GivesBack (step (some fun t _ => t)) := stepSeat fun f same => Option.some.inj same ▸ idle
      exact withinSeat within (back t r)
  · have back : GivesBack (step none) := stepSeat nofun
    exact withinSeat within (back t r)

theorem withinOffer {s t : Session} {levels : List Level} (within : Within s ⟨t, levels⟩)
    (x : Stream.Item) : Within s (offer t x levels) := by
  unfold offer
  split
  · exact withinMeet within _
  · exact withinSeat within (takeSeat (fun _ _ => rfl) t x)

theorem withinNext {s : Session} {p q : Playback} (within : Within s p) (next : p.next = some q) :
    Within s q := by
  obtain ⟨t, levels⟩ := p
  cases levels with
  | nil => cases next
  | cons level levels =>
    obtain ⟨options, depth, limit⟩ := within
    obtain ⟨r, outer, left⟩ := level
    cases left with
    | nil =>
      cases next
      have seat : (closed r outer t).seat = { t.seat with depth := t.depth - 1, stream := outer } := by
        unfold closed
        dsimp only
        split <;> rfl
      have back : (closed r outer t).depth = t.depth - 1 := congrArg Seat.depth seat
      refine ⟨(congrArg Seat.options seat).trans options, ?_, ?_⟩
      · exact back.trans (congrArg (· - 1) depth)
      · exact Nat.le_trans (Nat.le_of_eq back) (Nat.le_trans (Nat.sub_le ..) limit)
    | cons x left =>
      cases next
      have taken : Within s ⟨t, ⟨r, outer, left⟩ :: levels⟩ := ⟨options, depth, limit⟩
      exact withinOffer taken x

theorem withinAfter {s : Session} {n : Nat} {p q : Playback} (within : Within s p)
    (after : after n p = some q) : Within s q := by
  induction n generalizing p with
  | zero =>
    cases after
    exact within
  | succ n ih =>
    obtain ⟨u, first, rest⟩ := Option.bind_eq_some_iff.mp after
    exact ih (withinNext within first) rest

end Playback

/-! Each request that is played is processed where it stands. -/

theorem levelProcess {n : Nat} (l : List Stream.Item) (s : Session)
    (room : s.options.maxDepth - s.depth = n) :
    l.foldl (take (processAt n)) s = l.foldl (take process) s := by
  induction l generalizing s with
  | nil => rfl
  | cons x l ih =>
    have here : take (processAt n) s x = take process s x := takeSame fun r _ => by rw [process, room]
    have seat := takeSeat processSeat s x
    rw [List.foldl_cons, List.foldl_cons, here]
    exact ih _ ((congrArg (fun x : Seat => x.options.maxDepth - x.depth) seat).trans room)

theorem processRecurs (s : Session) (r : Request) :
    s.process r = step (if s.depth < s.options.maxDepth then some process else none) s r := by
  have stops : Stops process := fun t q => processAtStops _ t q
  cases room : s.options.maxDepth - s.depth with
  | zero =>
    rw [process, room, if_neg (by omega)]
    rfl
  | succ n =>
    rw [process, room, if_pos (by omega), processAt]
    cases given : s.script? r with
    | none => exact scriptless given _ _
    | some x =>
      rw [scripted given (processAtSeat n) (processAtStops n), scripted given processSeat stops,
        levelProcess x.items _ (openedRoom room r x)]

/-- Whatever is stored, a request comes to an end, and with no bound on the work it comes to what `process`
makes of it. On the way the session stands as deep as levels are open, and not below the limit; afterwards it
stands where it stood, and reads the stream that it read before. So it does after a stream. -/
theorem replayEnds (s : Session) (r : Request) :
    (∃ n, Playback.after n (.meet s r []) = some ⟨s.process r, []⟩ ∧
      Playback.after (n + 1) (.meet s r []) = none) ∧
    (∀ n p, Playback.after n (.meet s r []) = some p →
      p.session.depth = s.depth + p.levels.length ∧ p.session.depth ≤ max s.depth s.options.maxDepth) ∧
    s.process r = step (if s.depth < s.options.maxDepth then some process else none) s r ∧
    (s.process r).depth = s.depth ∧ (s.process r).stream = s.stream ∧
    ∀ source name,
      (s.readStream source name).depth = s.depth ∧ (s.readStream source name).stream = s.stream := by
  refine ⟨?_, fun n p reached => ?_, processRecurs s r, congrArg Seat.depth (processSeat s r),
    congrArg Seat.stream (processSeat s r), fun source name => ?_⟩
  · obtain ⟨n, ends⟩ := Playback.meetLeads _ s r [] rfl
    exact ⟨n, ends, by rw [Playback.afterAdd, ends]; rfl⟩
  · have begun : Playback.Within s ⟨s, []⟩ := ⟨rfl, rfl, Nat.le_max_left _ _⟩
    have within := Playback.withinAfter (Playback.withinMeet begun r) reached
    exact ⟨within.depth, within.limit⟩
  · have seat := readSeat processSeat source name s
    exact ⟨congrArg Seat.depth seat, congrArg Seat.stream seat⟩

def again : Request := ⟨.readArchive, 1, [.of (.strings ["again"]) false]⟩

def readingItself : Session :=
  { start { SessionOptions.default with maxDepth := 2 } (.bare []) with archives := [("again", [again])] }

example : (List.range 6).map
      (fun n => (Playback.after n (.meet readingItself again [])).map (·.levels.length)) =
    [some 1, some 2, some 2, some 1, some 0, none] := by
  decide +kernel

end SceneStream.Session
