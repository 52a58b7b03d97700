import SceneStream.Proofs.Session.Reachable

/-! What a request tells of while it is carried out. There is no error among it: such a problem is what the request
fails with, and it is for the caller to report it. -/
namespace SceneStream.Session
open SceneStream.Work

/-- Still going if it was, and nothing has been told of an error. -/
structure Calm (s t : Session) : Prop where
  aborted : t.aborted = s.aborted
  crashed : t.crashed = s.crashed
  told : ∃ l, t.notices = l ++ s.notices ∧ ∀ p, .problem p ∈ l → p.severity.rank < 2

def Calms {α : Type} (m : Run α) : Prop := ∀ s, Calm s (m.run s).2

section Calm
variable {s t u : Session}

theorem calmSame (aborted : t.aborted = s.aborted) (crashed : t.crashed = s.crashed)
    (notices : t.notices = s.notices) : Calm s t :=
  ⟨aborted, crashed, [], notices, nofun⟩

theorem calmRefl (s : Session) : Calm s s := calmSame rfl rfl rfl

theorem calmTrans (first : Calm s t) (next : Calm t u) : Calm s u := by
  obtain ⟨early, before, mild⟩ := first.told
  obtain ⟨late, after, still⟩ := next.told
  refine ⟨next.aborted.trans first.aborted, next.crashed.trans first.crashed, late ++ early, ?_, ?_⟩
  · rw [after, before, List.append_assoc]
  · intro p member
    exact (List.mem_append.mp member).elim (still p) (mild p)

theorem calmTell {n : Notice} (other : ∀ p, n ≠ .problem p) (s : Session) : Calm s (s.tell n) := by
  refine ⟨rfl, rfl, [n], rfl, fun p member => ?_⟩
  exact absurd (List.mem_singleton.mp member).symm (other p)

theorem calmDone (r : Request) (s : Session) : Calm s (s.tell (.done r)) := calmTell (n := .done r) nofun s

theorem calmReport {p : Problem} (mild : p.severity.rank < 2) (s : Session) : Calm s (s.report p) := by
  have short : ¬ 2 ≤ p.severity.rank := Nat.not_le.mpr mild
  have told {q : Problem} (same : q.severity = p.severity) :
      ∀ o, .problem o ∈ [Notice.problem q] → o.severity.rank < 2 := by
    intro o member
    cases List.mem_singleton.mp member
    rw [same]
    exact mild
  unfold report
  dsimp only
  cases s.errorMode with
  | ignore => exact calmSame rfl rfl rfl
  | print =>
    refine ⟨rfl, rfl, _, rfl, told ?_⟩
    cases s.stream <;> rfl
  | abort =>
    refine ⟨?_, rfl, _, rfl, told ?_⟩
    · cases s.stream <;> simp [short, Problem.inStream]
    · cases s.stream <;> rfl

end Calm

section Calms
variable {α β : Type}

theorem calmsPure (a : α) : Calms (pure a) := calmRefl
theorem calmsThrow (p : Problem) : Calms (throw p : Run α) := calmRefl
theorem calmsLift (x : Except Problem α) : Calms (Run.lift x) := calmRefl
theorem calmsDeclaring (m : Declaring α) : Calms (Run.declaring m) := fun _ => calmSame rfl rfl rfl

theorem calmsBind {m : Run α} {f : α → Run β} (first : Calms m) (next : ∀ a, Calms (f a)) :
    Calms (m >>= f) := by
  intro s
  have here := first s
  rw [runBind]
  cases run : m.run s with
  | mk x t =>
    rw [run] at here
    cases x with
    | error p => exact here
    | ok a => exact calmTrans here (next a t)

theorem calmsGet {f : Session → Run β} (each : ∀ s, Calms (f s)) : Calms (get >>= f) := by
  intro s
  rw [runBind, runGet]
  exact each s s

theorem calmsForM {f : α → Run Unit} (each : ∀ a, Calms (f a)) (l : List α) : Calms (l.forM f) := by
  induction l with
  | nil => exact calmsPure ()
  | cons a l ih => exact calmsBind (each a) fun _ => ih

end Calms

/-! What plays no others is calm. -/

theorem calmsChange {g : Session → Session}
    (same : ∀ s, ((g s).aborted, (g s).crashed, (g s).notices) = (s.aborted, s.crashed, s.notices)) :
    Calms (modify g) := by
  intro s
  obtain ⟨aborted, rest⟩ := Prod.mk.inj (same s)
  obtain ⟨crashed, notices⟩ := Prod.mk.inj rest
  exact calmSame aborted crashed notices

theorem calmsEnter (m : Mode) : Calms (enter m) :=
  calmsGet fun _ => calmsBind (calmsLift _) fun _ => by
    cases m <;> exact calmsChange fun _ => rfl

theorem calmsLeave (m : Mode) : Calms (leave m) := by
  have put {α : Type} (x : Session → Except Problem α) (f : α → Session → Session)
      (same : ∀ a s, Calm s (f a s)) : Calms (do
        let a ← Run.lift (x (← get))
        modify (f a)) :=
    calmsGet fun _ => calmsBind (calmsLift _) fun a => same a
  refine calmsGet fun _ => calmsBind (calmsLift _) fun modes => ?_
  refine calmsBind (calmsChange fun _ => rfl) fun _ => ?_
  cases m with
  | frame | world | attributes | solid => exact put _ _ fun _ _ => calmSame rfl rfl rfl
  | transform => exact put _ _ fun _ _ => calmSame rfl rfl rfl
  | motion => exact calmsChange fun _ => rfl
  | context | object | resource | archive => exact calmsPure ()

theorem leftOpenMild {modes : ModeStack} {p : Problem} (warning : modes.leftOpen = some p) :
    p.severity.rank < 2 := by
  unfold ModeStack.leftOpen at warning
  split at warning
  · cases warning
  · cases warning
  · cases warning
    exact Nat.one_lt_two

theorem calmsEndContext : Calms endContext := by
  refine calmsGet fun s => ?_
  refine calmsBind (calmsChange fun _ => rfl) fun _ => ?_
  split
  · rename_i p warning
    exact calmReport (leftOpenMild warning)
  · exact calmsPure ()

theorem calmsSolid (r : Request) : Calms (beginSolid r) := by
  refine calmsBind (calmsLift _) fun operation => ?_
  have opened : Calms (do
      enter .solid
      if operation ≠ "primitive" then
        let p := Problem.of .unimplemented s!"SolidBegin \"{operation}\": members are emitted unchanged"
        Run.report (p.atLine r.line) : Run Unit) := by
    refine calmsBind (calmsEnter .solid) fun _ => ?_
    split
    · exact calmReport Nat.one_lt_two
    · exact calmsPure ()
  dsimp only
  split
  · exact opened
  · exact calmsThrow _

theorem calmsEmit (x : Surface) : Calms (emit x) := by
  refine calmsGet fun s => ?_
  dsimp only
  split
  · exact calmsThrow _
  · exact calmTell nofun

theorem calmsTessellate (r : Request) : Calms (tessellate r) := by
  refine calmsGet fun s => calmsBind (calmsDeclaring _) fun outcome => ?_
  cases outcome with
  | surfaces l => exact calmsForM calmsEmit l
  | bound vars => exact calmTell nofun
  | deferred => exact calmsPure ()

theorem calmsLayoutOption (x : TokenValue) : Calms (layoutOption x) := by
  refine calmsBind (calmsDeclaring _) fun y => ?_
  split
  · dsimp only
    split
    · exact calmsChange fun _ => rfl
    · exact calmsThrow _
  · exact calmsPure ()

theorem calmsDeclare (r : Request) : Calms (declare r) := by
  refine calmsBind (calmsLift _) fun x => calmsGet fun s => calmsBind (calmsLift _) fun y => ?_
  refine calmsBind (calmsChange fun _ => rfl) fun _ => ?_
  split
  · exact calmReport Nat.two_pos
  · exact calmsPure ()

theorem calmsColorSamples (r : Request) : Calms (colorSamples r) := by
  refine calmsBind (calmsLift _) fun x => ?_
  have set : Calms (do
      let d ← Run.lift ((← get).dictionary.setColorSamples (x.1 / 3))
      modify fun s => { s with dictionary := d, state := s.state.setColorSamples (x.1 / 3) }) :=
    calmsGet fun _ => calmsBind (calmsLift _) fun d => calmsChange fun _ => rfl
  dsimp only
  split
  · exact calmsThrow _
  · exact set

theorem calmsPlain (play : Player) {r : Request} (direct : plays r.kind = false) :
    Calms (applyPlain play r) := by
  unfold applyPlain
  dsimp only
  split
  · exact calmsDeclare r
  · exact calmsBind (calmsLift _) fun mode => calmsChange fun _ => rfl
  · rename_i kind
    rw [kind] at direct
    cases direct
  · rename_i kind
    rw [kind] at direct
    cases direct
  · exact calmsColorSamples r
  · exact calmsBind (calmsLift _) fun list => calmsForM calmsLayoutOption list
  · exact calmReport Nat.one_lt_two
  · exact calmReport Nat.one_lt_two
  · split
    · exact calmsGet fun _ => calmsBind (calmsLift _) fun _ => calmsChange fun _ => rfl
    · exact calmsGet fun _ => calmsBind (calmsDeclaring _) fun _ => calmsChange fun _ => rfl
    · exact calmsGet fun _ => calmsBind (calmsDeclaring _) fun _ => calmsChange fun _ => rfl
    · exact calmsTessellate r
    · exact calmsPure ()

theorem calmsApply (play : Player) {r : Request} (direct : plays r.kind = false) : Calms (apply play r) := by
  have recorded (m : Mode) (target : Target) : Calms (do enter m; record target) :=
    calmsBind (calmsEnter m) fun _ => calmsChange fun _ => rfl
  unfold apply
  split
  · exact calmsEndContext
  · exact calmsPure ()
  · exact calmsPure ()
  · exact calmsSolid r
  · exact calmsBind (calmsLift _) fun h => recorded .object (.object h)
  · exact calmsBind (calmsLift _) fun name => recorded .archive (.archive name)
  · split
    · exact calmsEnter _
    · exact calmsLeave _
    · exact calmsPlain play direct

theorem calmsFinish (x : Recording) (r : Request) : Calms (finishRecording x r) := by
  refine calmsBind (calmsBind (calmsChange fun _ => rfl) fun _ => ?_) fun _ => calmDone r
  split
  · exact calmsBind (calmsLeave .object) fun _ => calmsChange fun _ => rfl
  · exact calmsBind (calmsLeave .archive) fun _ => calmsChange fun _ => rfl

theorem calmRecording (play : Player) {s : Session} {x : Recording} (recording : s.recording = some x)
    (r : Request) : Calm s ((dispatch play r).run s).2 := by
  simp only [dispatch, runBind, runGet, recording]
  split
  · unfold recordArchive
    dsimp only
    split
    · exact calmSame rfl rfl rfl
    · exact calmsFinish x r s
    · exact calmSame rfl rfl rfl
    · exact calmSame rfl rfl rfl
  · rw [recordObjectRun]
    cases s.check r with
    | error p => exact calmRefl s
    | ok _ =>
      dsimp only
      split
      · exact calmsFinish x r s
      · cases followed s.modes r.kind <;> exact calmSame rfl rfl rfl

theorem calmDispatch {play : Player} {s : Session} {r : Request}
    (applied : s.carries r = true → ¬ IsLater s r → Calm (sampled s r) ((apply play r).run (sampled s r)).2) :
    Calm s ((dispatch play r).run s).2 := by
  cases recording : s.recording with
  | some x => exact calmRecording play recording r
  | none =>
    have sampled : Calm s (sampled s r) := calmSame rfl rfl rfl
    have ends := executed play s r
    rw [dispatchIdle play recording]
    generalize (execute play r).run s = ran at ends
    cases ends with
    | confirmed => exact calmTrans (calmSame (t := { s with isFresh := false }) rfl rfl rfl) (calmDone r _)
    | refused => exact calmRefl s
    | passed => exact calmTrans sampled (calmDone r _)
    | applied _ checked now run =>
      have calm := applied (carriesChecked.mpr ⟨recording, checked⟩) now
      rw [run] at calm
      exact calmTrans (calmTrans sampled calm) (calmDone r _)
    | failed _ checked now run =>
      have calm := applied (carriesChecked.mpr ⟨recording, checked⟩) now
      rw [run] at calm
      exact calmTrans sampled calm

end SceneStream.Session
