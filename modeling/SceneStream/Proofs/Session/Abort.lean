import SceneStream.Proofs.Session.Calm
import SceneStream.Proofs.Session.Playback

/-! Sessions that are told to abort. A request tells of an error as the last thing it does, and then nothing happens
any more: what is being played is only left, level by level. On the way out each archive and each object that was
being played is acknowledged, as if it had been carried out. -/
namespace SceneStream.Session

/-- What one turn makes of a session: of an error it tells at the last, if at all. -/
inductive Turn (s : Session) : Session → Prop where
  | done {t : Session} (calm : Calm s t) : Turn s t
  | reported {t : Session} (calm : Calm s t) (p : Problem) : Turn s (t.report p)
  | crashed {t : Session} (calm : Calm s t) : Turn s { t with aborted := true, crashed := true }

theorem stepTurn {play : Player} {s : Session} {r : Request}
    (calm : s.aborted = false → Calm s ((dispatch play r).run s).2) : Turn s (step play s r) := by
  unfold step
  split
  · exact .done (calmRefl s)
  · rename_i going
    have calm := calm (by simpa using going)
    split
    · rename_i run
      rw [run] at calm
      exact .done calm
    · rename_i p t run
      rw [run] at calm
      unfold fail
      split
      · exact .crashed calm
      · exact .reported calm _

theorem closedTurn (s : Session) (r : Request) (outer : Option String) : Turn s (closed r outer s) := by
  have left : Calm s { s with depth := s.depth - 1, stream := outer } := calmSame rfl rfl rfl
  unfold closed
  dsimp only
  split
  · exact .crashed left
  · exact .done (calmTrans left (calmDone r _))

theorem closedAlive {s : Session} (alive : s.crashed = false) (r : Request) (outer : Option String) :
    closed r outer s = tell (.done r) { s with depth := s.depth - 1, stream := outer } :=
  if_neg (by simp [alive])

namespace Playback

theorem meetTurn (s : Session) (r : Request) (levels : List Level) : Turn s (meet s r levels).session := by
  unfold meet
  split
  · split
    · exact .done (calmSame rfl rfl rfl)
    · rename_i nothing
      refine stepTurn fun going => calmDispatch fun carried now => ?_
      cases others : plays r.kind with
      | false => exact calmsApply _ others _
      | true =>
        cases asks others (sampled s r) with
        | nothing _ refused =>
          rw [refused]
          exact calmRefl _
        | script named =>
          rw [sampledNamed] at named
          simp [script?, going, carried, now, named] at nothing
  · refine stepTurn fun _ => calmDispatch fun _ _ => ?_
    cases others : plays r.kind with
    | false => exact calmsApply none others _
    | true =>
      -- Where the limit is reached, nothing is played.
      obtain ⟨p, -, refused⟩ | ⟨work, -, deep⟩ := playsApply none others (sampled s r)
      · rw [refused]
        exact calmRefl _
      · rw [deep]
        exact calmRefl _

theorem offerTurn (s : Session) (x : Stream.Item) (levels : List Level) :
    Turn s (offer s x levels).session := by
  unfold offer
  split
  · exact meetTurn s _ levels
  · unfold take
    split
    · exact .done (calmRefl s)
    · split
      · exact .done (calmRefl s)
      · split
        · exact .done (calmTell (n := .comment _) nofun s)
        · exact .done (calmRefl s)
      · exact .reported (calmRefl s) _

/-! The way out. -/

section Stopped
variable {s : Session} (ended : s.aborted = true)
include ended

theorem offerStops (x : Stream.Item) (levels : List Level) : offer s x levels = ⟨s, levels⟩ := by
  have stays (play : Player) (r : Request) : step play s r = s := by simp [step, ended]
  unfold offer
  split
  · unfold meet
    split
    · rw [show s.script? _ = none from if_neg (by simp [ended])]
      exact congrArg (Playback.mk · levels) (stays _ _)
    · exact congrArg (Playback.mk · levels) (stays _ _)
  · simp [take, ended]

theorem levelPasses (r : Request) (outer : Option String) (l : List Stream.Item) (levels : List Level) :
    Leads ⟨s, ⟨r, outer, l⟩ :: levels⟩ ⟨closed r outer s, levels⟩ := by
  induction l with
  | nil => exact ⟨1, rfl⟩
  | cons x l ih =>
    have next : Playback.next ⟨s, ⟨r, outer, x :: l⟩ :: levels⟩ = some ⟨s, ⟨r, outer, l⟩ :: levels⟩ :=
      congrArg some (offerStops ended x _)
    exact leadsNext next ih

end Stopped

def unwound (s : Session) (levels : List Level) : Session :=
  levels.foldl (fun s l => closed l.request l.outer s) s

def acknowledged (levels : List Level) : List Notice := (levels.map fun l => .done l.request).reverse

theorem unwinds {s : Session} (ended : s.aborted = true) (alive : s.crashed = false) (levels : List Level) :
    Leads ⟨s, levels⟩ ⟨unwound s levels, []⟩ := by
  induction levels generalizing s with
  | nil => exact ⟨0, rfl⟩
  | cons level levels ih =>
    obtain ⟨r, outer, l⟩ := level
    have left := closedAlive alive r outer
    refine leadsTrans (levelPasses ended r outer l levels) (ih ?_ ?_)
    · rw [left]
      exact ended
    · rw [left]
      exact alive

theorem unwoundSame {s : Session} (alive : s.crashed = false) (levels : List Level) : ∃ depth stream,
    unwound s levels = { s with depth, stream, notices := acknowledged levels ++ s.notices } := by
  induction levels generalizing s with
  | nil => exact ⟨s.depth, s.stream, rfl⟩
  | cons level levels ih =>
    obtain ⟨r, outer, l⟩ := level
    have left := closedAlive alive r outer
    have told : acknowledged (⟨r, outer, l⟩ :: levels) = acknowledged levels ++ [.done r] := by
      simp [acknowledged]
    obtain ⟨depth, stream, later⟩ := ih (s := closed r outer s) (by rw [left]; exact alive)
    refine ⟨depth, stream, later.trans ?_⟩
    rw [left, told, List.append_assoc]
    rfl

theorem endsSame {p : Playback} {s t : Session} {m n : Nat} (first : after m p = some ⟨s, []⟩)
    (second : after n p = some ⟨t, []⟩) : s = t := by
  have further {s t : Session} {m k : Nat} (first : after m p = some ⟨s, []⟩)
      (second : after (m + k) p = some ⟨t, []⟩) : s = t := by
    rw [afterAdd, first] at second
    cases k with
    | zero => exact congrArg Playback.session (Option.some.inj second)
    | succ k => cases second
  rcases Nat.le_total m n with less | less
  · obtain ⟨k, rfl⟩ := Nat.exists_eq_add_of_le less
    exact further first second
  · obtain ⟨k, rfl⟩ := Nat.exists_eq_add_of_le less
    exact (further second first).symm

theorem stoppedProcess {s : Session} {r : Request} {n : Nat} {p : Playback}
    (reached : after n (meet s r []) = some p) (ended : p.session.aborted = true)
    (alive : p.session.crashed = false) : s.process r = { p.session with
      depth := s.depth
      stream := s.stream
      notices := acknowledged p.levels ++ p.session.notices } := by
  obtain ⟨m, whole⟩ : Leads (meet s r []) ⟨s.process r, []⟩ := meetLeads _ s r [] rfl
  obtain ⟨k, out⟩ := unwinds ended alive p.levels
  have both : after (n + k) (meet s r []) = some ⟨unwound p.session p.levels, []⟩ := by
    rw [afterAdd, reached]
    exact out
  obtain ⟨depth, stream, unwound⟩ := unwoundSame alive p.levels
  have same := (endsSame whole both).trans unwound
  have back := processSeat s r
  rw [same] at back ⊢
  cases congrArg Seat.depth back
  cases congrArg Seat.stream back
  rfl

end Playback

theorem processStops (s : Session) (r : Request) (ended : s.aborted = true) : s.process r = s :=
  processAtStops _ s r ended

theorem itemsStop {s : Session} (ended : s.aborted = true) (l : List Stream.Item) :
    l.foldl (take process) s = s := by
  induction l with
  | nil => rfl
  | cons x l ih =>
    have passed : take process s x = s := if_pos ended
    rw [List.foldl_cons, passed, ih]

theorem streamStops {s : Session} {source : Stream.Source} {before after : List Stream.Item} (name : String)
    (items : source.items = before ++ after)
    (ended : (before.foldl (take process) { s with stream := some name }).aborted = true) :
    s.readStream source name =
      { before.foldl (take process) { s with stream := some name } with stream := s.stream } := by
  unfold readStream readWith
  rw [items, List.foldl_append, itemsStop ended]

theorem reportAborts {s : Session} (mode : s.errorMode = .abort) {p : Problem} (grave : 2 ≤ p.severity.rank) :
    (s.report p).aborted = true := by
  unfold report
  rw [mode]
  cases s.stream <;> simp [grave, Problem.inStream]

/-- In abort mode the report of an error stops a session, and it is the last thing that is done where it is
reported. If that is inside of archives or objects, they are left and acknowledged, the innermost first; nothing
else changes or is told, by what is left of them, by what is left of the stream, or by anything later. -/
theorem abortStops (s : Session) :
    (∀ p, s.errorMode = .abort → 2 ≤ p.severity.rank → (s.report p).aborted = true) ∧
    (∀ x levels, Turn s (Playback.offer s x levels).session) ∧
    (∀ r outer, Turn s (closed r outer s)) ∧
    (∀ r n p, Playback.after n (.meet s r []) = some p → p.session.aborted = true →
      p.session.crashed = false → s.process r = { p.session with
        depth := s.depth
        stream := s.stream
        notices := Playback.acknowledged p.levels ++ p.session.notices }) ∧
    (∀ (source : Stream.Source) name before after, source.items = before ++ after →
      (before.foldl (take process) { s with stream := some name }).aborted = true →
      s.readStream source name =
        { before.foldl (take process) { s with stream := some name } with stream := s.stream }) ∧
    (s.aborted = true → ∀ r source name, s.process r = s ∧ s.readStream source name = s) := by
  refine ⟨fun p mode grave => reportAborts mode grave, Playback.offerTurn s, closedTurn s,
    fun r n p => Playback.stoppedProcess, fun source name before after => streamStops name, ?_⟩
  intro ended r source name
  have all : source.items = [] ++ source.items := rfl
  exact ⟨processStops s r ended, streamStops name all ended⟩

/-- A sphere that may not stand in its archive, in a session that is told to abort. -/
def misplacedSphere : List Request := [
  ⟨.errorHandler, 1, [.of (.strings ["abort"]) false]⟩, ⟨.archiveBegin, 2, [.of (.strings ["globe"]) false]⟩,
  ⟨.sphere, 3, []⟩, ⟨.archiveEnd, 4, []⟩]

def globe : Request := ⟨.readArchive, 5, [.of (.strings ["globe"]) false]⟩

theorem misplacedSphereStops :
    let s := misplacedSphere.foldl process (start .default (.bare []))
    ∃ p, Playback.after 1 (.meet s globe []) = some p ∧ p.session.aborted = true ∧
      p.session.crashed = false ∧ (s.process globe).modes = p.session.modes ∧
      (s.process globe).notices = .done globe :: p.session.notices := by
  intro s
  have reached : Playback.after 1 (.meet s globe []) = some _ := rfl
  have same := (abortStops s).2.2.2.1 globe 1 _ reached rfl rfl
  exact ⟨_, reached, rfl, rfl, by rw [same], by rw [same]; rfl⟩

theorem misplacedSphereAcknowledged :
    let s := misplacedSphere.foldl process (start .default (.bare []))
    s.errorMode = .abort ∧ s.aborted = false ∧ ∃ p, 2 ≤ p.severity.rank ∧
      (s.process globe).notices = .done globe :: .problem p :: s.notices :=
  ⟨rfl, rfl, _, by decide, rfl⟩

end SceneStream.Session
