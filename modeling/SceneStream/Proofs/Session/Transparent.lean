import SceneStream.Proofs.Session.Blocks
import SceneStream.Proofs.Session.Echo
import SceneStream.Proofs.Session.Handlers

/-! Archives that are written down and read right after. Writing down changes nothing but what is written,
and reading does what the requests would have done where the archive began. -/
namespace SceneStream.Session
open SceneStream.Work

/-- Archives begun and not yet ended, after one more request; the end of one that was begun before is none
of these. -/
def nested (n : Nat) (r : Request) : Option Nat :=
  match r.kind, n with
  | .archiveBegin, n => some (n + 1)
  | .archiveEnd, 0 => none
  | .archiveEnd, n + 1 => some n
  | _, n => some n

/-- The requests of an archive between its beginning and its end, and a request that reads it. -/
structure Inline where
  name : String
  first : Request
  body : List Request
  last : Request
  read : Request
  begins : first.kind = .archiveBegin
  defines : first.archive? = some name
  ends : last.kind = .archiveEnd
  balanced : body.foldlM nested 0 = some 0
  inner : ∀ r ∈ body, r.kind ≠ .beginContext
  silent : Silence name body
  reads : read.kind = .readArchive
  names : read.archive? = some name

def Inline.written (x : Inline) (s : Session) : Session :=
  (x.first :: (x.body ++ [x.last])).foldl process s

/-- Like `processAt`, but what lies below the last level is asked of `floor`. -/
def processOver (floor : Player) : Nat → Session → Request → Session
  | 0, s, r => step floor s r
  | n + 1, s, r => step (some (processOver floor n)) s r

/-- The limit on the depth is not met: whatever would be played below it makes no difference. -/
def LimitUnmet (s : Session) (r : Request) : Prop :=
  ∀ floor, processOver floor (s.options.maxDepth - s.depth) s r = s.process r

/-- What comes of reading an archive differs from what comes of its requests in the archive itself, and by
what is told of its definition. A crash is told to no one, and takes the reading with it. -/
structure Transparent (x : Inline) (s direct replayed : Session) : Prop where
  rest : replayed = { direct with
    aborted := direct.aborted || direct.crashed, isFresh := replayed.isFresh
    archives := replayed.archives, notices := replayed.notices }
  archives : replayed.archives.filter (·.1 ≠ x.name) = direct.archives.filter (·.1 ≠ x.name)
  told : ∃ new, direct.notices = new ++ s.notices ∧
    replayed.notices = (if direct.crashed then [] else [.done x.read]) ++ new ++
      .done x.last :: .done x.first :: s.notices

theorem oneMoreLevel (n : Nat) : processOver (some (processAt 0)) n = processAt (n + 1) := by
  induction n with
  | zero => rfl
  | succ n ih =>
    funext s r
    rw [processOver, ih, processAt]

/-! The beginning of an archive, and the request that reads it. -/

theorem archiveNamed {r : Request} {name : String} (named : r.archive? = some name) :
    (r.kind = .archiveBegin ∨ r.kind = .readArchive) ∧ Args.read r Args.string = .ok name := by
  unfold Request.archive? at named
  split at named
  · exact ⟨.inl ‹_›, Outcome.optionOk named⟩
  · exact ⟨.inr ‹_›, Outcome.optionOk named⟩
  · cases named

theorem stringCounts {r : Request} {name : String} (read : Args.read r Args.string = .ok name) :
    1 ≤ r.valueCount := by
  have run : Args.string.run (Args.of r) = (.ok name, (Args.string.run (Args.of r)).2) :=
    Prod.ext read rfl
  obtain ⟨p, seen, all⟩ := wholeGiven run
  have one : p.length = 1 := by
    unfold Parameter.string? at seen
    split at seen
    · rename_i values
      simp [Parameter.length, values, Values.length]
    · cases seen
  rw [Request.valueCount, show r.params = _ from all, List.map_cons, List.sum_cons, one, ite_self]
  exact Nat.le_add_right ..

theorem namedChecks {s : Session} {r : Request} {name : String} (isOpen : s.modes.effective? ≠ none)
    (named : r.archive? = some name) : s.check r = .ok () := by
  obtain ⟨kind, read⟩ := archiveNamed named
  have counts := stringCounts read
  have allowed : s.modes.allows r.kind = true := by
    unfold ModeStack.allows
    cases effective : s.modes.effective? with
    | none => exact absurd effective isOpen
    | some m =>
      have solid : m.isTransparent = false := by simpa using List.find?_some effective
      obtain kind | kind := kind <;> simp [kind, Mode.closedBy, RequestKind.group, RequestKind.row,
        RequestGroup.allows, solid]
  have arity : r.kind.arity = 1 := by
    obtain kind | kind := kind <;> rw [kind] <;> rfl
  unfold check
  simp [allowed, arity, Nat.not_lt.mpr counts]

structure Ready (s : Session) : Prop where
  isOpen : s.modes.effective? ≠ none
  idle : s.recording = none
  going : s.aborted = false
  still : s.motion = none

theorem namedRun (play : Player) {s : Session} (ready : Ready s) {r : Request} {name : String}
    (named : r.archive? = some name) :
    (dispatch play r).run s = match (apply play r).run { s with isFresh := false } with
      | (.ok _, t) => (.ok (), tell (.done r) t)
      | (.error p, t) => (.error p, t) := by
  have inner : r.kind ≠ .beginContext := by
    obtain kind | kind := (archiveNamed named).1 <;> rw [kind] <;> decide
  have now : ¬ IsLater s r := by
    rintro ⟨n, motion, -⟩
    rw [ready.still] at motion
    cases motion
  have run := (executeRun play (innerActs inner) (namedChecks ready.isOpen named)).2 now
  have counted : sampled s r = { s with isFresh := false } := by
    simp [sampled, ready.still]
  rw [counted] at run
  exact (dispatchIdle play ready.idle r).trans run

def writing (x : Inline) (requests : List Request) (n : Nat) (s : Session) : Session :=
  { s with
    modes := ⟨.archive :: s.modes.blocks⟩, recording := some ⟨.archive x.name, requests, n⟩
    isFresh := false, notices := .done x.first :: s.notices }

theorem beginRun (x : Inline) {s : Session} (ready : Ready s) (play : Player) :
    step play s x.first = writing x [] 0 s := by
  obtain ⟨-, read⟩ := archiveNamed x.defines
  have may : s.modes.mayOpen .archive = true := by
    unfold ModeStack.mayOpen
    cases effective : s.modes.effective? with
    | none => exact absurd effective ready.isOpen
    | some m => rfl
  have run := namedRun play ready x.defines
  have applied : (apply play x.first).run { s with isFresh := false } = (.ok (), { s with
      modes := ⟨.archive :: s.modes.blocks⟩, recording := some ⟨.archive x.name, [], 0⟩
      isFresh := false }) := by
    simp only [apply, x.begins, runBind, runLift, read, enterRun, pushAllowed may]
    rfl
  rw [applied] at run
  exact stepDone ready.going run

theorem recordArchiveNested (x : Recording) (r : Request) : recordArchive x r =
    match nested x.nested r with
    | some n => modify fun s => { s with recording := some (Recording.add r { x with nested := n }) }
    | none => finishRecording x r := by
  obtain ⟨target, requests, n⟩ := x
  unfold recordArchive nested
  dsimp only
  generalize r.kind = k
  split <;> simp_all

theorem nestedRun (x : Inline) {s : Session} (going : s.aborted = false) {requests : List Request}
    {n k : Nat} {r : Request} (inner : nested n r = some k) (play : Player) :
    step play (writing x requests n s) r = writing x (r :: requests) k s := by
  refine stepDone (s := writing x requests n s) going ?_
  simp only [dispatch, writing, runBind, runGet, recordArchiveNested, inner]
  rfl

theorem bodyRun (x : Inline) {s : Session} (going : s.aborted = false) {rs requests : List Request}
    {n k : Nat} (inner : rs.foldlM nested n = some k) :
    rs.foldl process (writing x requests n s) = writing x (rs.reverse ++ requests) k s := by
  induction rs generalizing n requests with
  | nil =>
    cases inner
    rfl
  | cons r rs ih =>
    rw [List.foldlM_cons] at inner
    obtain ⟨m, first, rest⟩ := Option.bind_eq_some_iff.mp inner
    obtain ⟨play, same⟩ := stepAt
      ((writing x requests n s).options.maxDepth - (writing x requests n s).depth)
    rw [List.foldl_cons, process, same, nestedRun x going first, ih rest, List.reverse_cons,
      List.append_assoc]
    rfl

def stored (x : Inline) (s : Session) : Session :=
  { s with
    isFresh := false, archives := (x.name, x.body) :: s.archives
    notices := .done x.last :: .done x.first :: s.notices }

theorem endRun (x : Inline) {s : Session} (ready : Ready s) (play : Player) :
    step play (writing x x.body.reverse 0 s) x.last = stored x s := by
  refine stepDone (s := writing x x.body.reverse 0 s) ready.going ?_
  have last : nested 0 x.last = none := by simp [nested, x.ends]
  simp only [dispatch, writing, runBind, runGet, recordArchiveNested, last, finishRecording, keepRun,
    Target.mode]
  rw [popTop rfl]
  simp only [defined, List.reverse_reverse, stored, ready.idle]
  rfl

theorem writtenRun (x : Inline) {s : Session} (ready : Ready s) : x.written s = stored x s := by
  obtain ⟨play, begins⟩ := processAtStep s x.first
  obtain ⟨play', ends⟩ := processAtStep (writing x x.body.reverse 0 s) x.last
  rw [Inline.written, List.foldl_cons, List.foldl_append, begins, beginRun x ready,
    bodyRun x ready.going x.balanced, List.append_nil]
  exact ends.trans (endRun x ready play')

theorem prefixWrites (x : Inline) {s : Session} (ready : Ready s) {l : List Request}
    (part : l <+: x.body) : ∃ y, (x.first :: l).foldl process s =
      { s.process x.first with recording := some y } := by
  obtain ⟨rest, all⟩ := part
  have balanced := x.balanced
  rw [← all, List.foldlM_append] at balanced
  obtain ⟨n, inner, -⟩ := Option.bind_eq_some_iff.mp balanced
  obtain ⟨play, begins⟩ := processAtStep s x.first
  rw [List.foldl_cons, begins, beginRun x ready, bodyRun x ready.going inner]
  exact ⟨_, rfl⟩

/-! Reading. -/

def below (x : Inline) (s : Session) : Session := { stored x s with depth := s.depth + 1 }

theorem readRun (x : Inline) {s : Session} (ready : Ready s) (f : Session → Request → Session)
    {u : Session} (played : x.body.foldl f (below x s) = u) :
    step (some f) (stored x s) x.read =
      if u.crashed then { u with depth := s.depth, aborted := true, crashed := true }
      else tell (.done x.read) { u with depth := s.depth } := by
  have again : Ready (stored x s) := ⟨ready.isOpen, ready.idle, ready.going, ready.still⟩
  have run := namedRun (some f) again x.names
  obtain ⟨-, read⟩ := archiveNamed x.names
  have applied : (apply (some f) x.read).run { stored x s with isFresh := false } =
      ((if u.crashed = true then
          .error (.crash s!"{RequestKind.readArchive.name}: ended by a request that was played")
        else .ok ()), { u with depth := s.depth }) := by
    simp only [archiveRun _ x.reads, read, readArchive, runBind, runGet, stored, List.lookup_cons_self, replay]
    rw [deeperRun]
    subst played
    rfl
  rw [applied] at run
  cases crashed : u.crashed with
  | true =>
    simp only [crashed, if_true] at run
    exact stepFailed again.going run
  | false =>
    simp only [crashed, Bool.false_eq_true, if_false] at run
    exact stepDone again.going run

theorem bodyEchoes {name : String} {o : SessionOptions} {a b : Stand} {rs : List Request}
    (inner : ∀ r ∈ rs, r.kind ≠ .beginContext) (silent : Silence name rs) {s t : Session}
    (echoes : Echoes name o a b false s t) : Echoes name o a b false (rs.foldl process s)
      (rs.foldl (processAt (o.maxDepth - a.depth)) t) := by
  induction rs generalizing s t with
  | nil => exact echoes
  | cons r rs ih =>
    obtain ⟨own, others⟩ := List.forall_mem_cons.mp inner
    obtain ⟨first, rest⟩ := List.forall_mem_cons.mp silent
    have level : s.process r = processAt (o.maxDepth - a.depth) s r := by
      obtain ⟨twins, rfl, -⟩ := echoes
      rw [← twins.first]
      rfl
    rw [List.foldl_cons, List.foldl_cons, level]
    exact ih others rest (processAtEchoes _ first (.inr own) echoes)

theorem storedEchoes (x : Inline) {s : Session} (quiet : Quiet x.name s) :
    Echoes x.name s.options ⟨s.depth, s.notices⟩
      ⟨s.depth + 1, .done x.last :: .done x.first :: s.notices⟩ false s
      (below x s) := by
  refine .mk (c := { s with notices := [] })
    (v := ⟨s.archives, s.objects, s.recording, s.files, s.depth, s.isFresh, s.notices⟩)
    (w := ⟨(x.name, x.body) :: s.archives, s.objects, s.recording, s.files, s.depth + 1, false,
      .done x.last :: .done x.first :: s.notices⟩) ?_ rfl quiet
  refine ⟨?_, rfl, rfl, rfl, rfl, rfl, nofun, rfl⟩
  rw [List.filter_cons_of_neg (by simp)]

theorem readTransparent (x : Inline) {s d u t : Session}
    (echoes : Echoes x.name s.options ⟨s.depth, s.notices⟩
      ⟨s.depth + 1, .done x.last :: .done x.first :: s.notices⟩ false d u)
    (replayed : t = if u.crashed then { u with depth := s.depth, aborted := true, crashed := true }
      else tell (.done x.read) { u with depth := s.depth }) : Transparent x s d t := by
  obtain @⟨c, v, w, twins, -, -⟩ := echoes
  obtain ⟨archives, objects, recording, files, first, second, -, -⟩ := twins
  obtain ⟨depth, earlier⟩ := Stand.mk.inj first
  obtain ⟨-, later⟩ := Stand.mk.inj second
  cases crashed : c.crashed with
  | true =>
    rw [if_pos (show (c.veil w).crashed = true from crashed)] at replayed
    subst replayed
    refine ⟨?_, archives, c.notices, congrArg _ earlier, ?_⟩
    · simp only [veil, crashed, Bool.or_true, objects, recording, files, depth]
    · simp only [veil, crashed, if_true, List.nil_append, later]
  | false =>
    rw [if_neg (ne_true_of_eq_false (show (c.veil w).crashed = false from crashed))] at replayed
    subst replayed
    refine ⟨?_, archives, c.notices, congrArg _ earlier, ?_⟩
    · simp only [veil, tell, crashed, Bool.or_false, objects, recording, files, depth]
    · simp [veil, tell, crashed, later]

/-! An archive whose requests play no others stays clear of the limit. -/

theorem playlessStep (play other : Player) {r : Request} (direct : plays r.kind = false)
    (s : Session) : step play s r = step other s r := by
  unfold step dispatch execute
  rw [playless play other direct]

theorem playlessRun (play other : Player) {rs : List Request} (direct : ∀ r ∈ rs, plays r.kind = false)
    (s : Session) : rs.foldl (step play) s = rs.foldl (step other) s := by
  induction rs generalizing s with
  | nil => rw [List.foldl_nil, List.foldl_nil]
  | cons r rs ih =>
    obtain ⟨own, rest⟩ := List.forall_mem_cons.mp direct
    rw [List.foldl_cons, List.foldl_cons, playlessStep play other own]
    exact ih rest _

theorem plainUnmet (x : Inline) {s : Session} (ready : Ready s) (inside : s.depth < s.options.maxDepth)
    (direct : ∀ r ∈ x.body, plays r.kind = false) : LimitUnmet (x.written s) x.read := by
  intro floor
  obtain ⟨k, level⟩ := Nat.exists_eq_succ_of_ne_zero (Nat.sub_ne_zero_of_lt inside)
  have played : x.body.foldl (processOver floor k) (below x s) =
      x.body.foldl (processAt k) (below x s) := by
    cases k with
    | zero => exact playlessRun floor none direct _
    | succ k => exact playlessRun _ _ direct _
  rw [writtenRun x ready, process,
    show (stored x s).options.maxDepth - (stored x s).depth = k + 1 from level]
  exact (readRun x ready _ rfl).trans (readRun x ready _ played.symm).symm

/-- While an archive is written down, only what is written changes; and reading it does what its requests
would have done, but for the archive itself. -/
theorem inlineArchivesTransparent {options : SessionOptions} {files : Files} {s : Session}
    (reached : Reachable options files s) (x : Inline) (isOpen : s.modes.blocks ≠ [])
    (idle : s.recording = none) (going : s.aborted = false) (still : s.motion = none)
    (quiet : Quiet x.name s) (unmet : LimitUnmet (x.written s) x.read) :
    (∀ l, l <+: x.body → ∃ y, (x.first :: l).foldl process s =
      { s.process x.first with recording := some y }) ∧
    Transparent x s (x.body.foldl process s) ((x.written s).process x.read) := by
  have ready : Ready s :=
    ⟨groundedEffective (reachableSound reached).grounded isOpen, idle, going, still⟩
  refine ⟨fun l => prefixWrites x ready, ?_⟩
  have next := unmet (some (processAt 0))
  rw [oneMoreLevel, writtenRun x ready] at next
  rw [writtenRun x ready, ← next]
  have replayed := readRun x ready (processAt (s.options.maxDepth - s.depth)) rfl
  exact readTransparent x (bodyEchoes x.inner x.silent (storedEchoes x quiet)) replayed

/-- A block that stays open, an archive inside, and a request that is refused. -/
def clutter : Inline where
  name := "clutter"
  first := ⟨.archiveBegin, 1, [.of (.strings ["clutter"]) false]⟩
  body := [⟨.attributeBegin, 2, []⟩, ⟨.archiveBegin, 3, [.of (.strings ["skin"]) false]⟩,
    ⟨.transformBegin, 4, []⟩, ⟨.archiveEnd, 5, []⟩, ⟨.frameEnd, 6, []⟩]
  last := ⟨.archiveEnd, 7, []⟩
  read := ⟨.readArchive, 8, [.of (.strings ["clutter"]) false]⟩
  begins := rfl
  defines := by decide +kernel
  ends := rfl
  balanced := by decide
  inner := by decide
  silent := by decide +kernel
  reads := rfl
  names := by decide +kernel

theorem bareSource {current : Place} {path : String} {source : Stream.Source}
    (opened : (Files.bare current).openSource path = .ok source) :
    source = ⟨[], some FileFault.isDirectory.message⟩ := by
  obtain ⟨place, -, opened⟩ := Outcome.okBind opened
  have folder : (if (Files.bare current).isDirectory place then
      .ok ⟨[], some FileFault.isDirectory.message⟩ else .error FileFault.missing) =
      (.ok source : Except FileFault Stream.Source) := opened
  split at folder
  · exact (Except.ok.inj folder).symm
  · cases folder

theorem clutterTransparent :
    (clutter.body.foldl process (start .default (.bare []))).modes.modes = [.context, .attributes] ∧
    Transparent clutter (start .default (.bare []))
      (clutter.body.foldl process (start .default (.bare [])))
      ((clutter.written (start .default (.bare []))).process clutter.read) := by
  have ready : Ready (start .default (.bare [])) := ⟨by decide, rfl, rfl, rfl⟩
  have quiet : Quiet "clutter" (start .default (.bare [])) := by
    refine ⟨nofun, nofun, nofun, fun path source opened r mem => ?_⟩
    rw [bareSource opened] at mem
    have none : (Stream.Source.items ⟨[], some FileFault.isDirectory.message⟩).all
        (fun x => !x.isOk) = true := by decide +kernel
    cases List.all_eq_true.mp none _ mem
  exact ⟨by decide +kernel, (inlineArchivesTransparent .start clutter (by decide) rfl rfl rfl quiet
    (plainUnmet clutter ready (by decide) (by decide))).2⟩

end SceneStream.Session
