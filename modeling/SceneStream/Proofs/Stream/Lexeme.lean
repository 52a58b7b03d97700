import SceneStream.Stream.Lexeme
import SceneStream.Proofs.Stream.Scan

/-! Lexemes from a place on, and what a problem of a stream in memory looks like: it has a line, and it
never ends the stream. -/
namespace SceneStream.Stream

namespace Definitions

theorem runDone (last : Nat) (d : Definitions) (done : List Lexed) (ss : List Scan) :
    run last d done ss = done.reverse ++ run last d [] ss := by
  induction ss generalizing d done with
  | nil => simp [run]
  | cons s ss ih =>
    unfold run
    cases d.step s with
    | mk d result =>
      cases result with
      | none => exact ih d done
      | some result =>
        simp only
        rw [ih d (_ :: done), ih d [_]]
        simp

end Definitions

def lexedFrom (last : Nat) (d : Definitions) (c : Cursor) : List Lexed :=
  Definitions.run last d [] (scansFrom c)

theorem lexedFromEnd {last : Nat} {d : Definitions} {c : Cursor} (ended : scan? c = none) :
    lexedFrom last d c = d.finish last := by
  unfold lexedFrom
  rw [scansFromStep, ended]
  simp [Definitions.run]

theorem lexedFromSilent {last : Nat} {d after : Definitions} {c : Cursor} {s : Scan}
    (found : scan? c = some s) (quiet : d.step s = (after, none)) :
    lexedFrom last d c = lexedFrom last after s.after := by
  unfold lexedFrom
  rw [scansFromStep, found]
  simp [Definitions.run, quiet]

theorem lexedFromNext {last : Nat} {d after : Definitions} {c : Cursor} {s : Scan}
    {result : Except Problem Lexeme}
    (found : scan? c = some s) (given : d.step s = (after, some result)) :
    lexedFrom last d c = ⟨result, s.after.line⟩ :: lexedFrom last after s.after := by
  unfold lexedFrom
  rw [scansFromStep, found]
  simp only [Definitions.run, given]
  rw [Definitions.runDone]
  rfl

theorem lexedStart (bytes : Bytes) :
    lexed bytes = lexedFrom (lastLine bytes) .empty (.start bytes) := rfl

/-! Problems of a stream in memory. -/

def Recoverable (p : Problem) : Prop := p.line.isSome ∧ p.isSevere = false

theorem atLineKept {p : Problem} (known : p.line.isSome) (n : Nat) : p.atLine n = p := by
  obtain ⟨line, same⟩ := Option.isSome_iff_exists.mp known
  cases p
  simp only at same
  simp [Problem.atLine, same]

def Readable (f : Fault) : Prop := ∀ reason, f ≠ .unreadable reason

theorem readableProblem {f : Fault} (readable : Readable f) (line : Nat) :
    Recoverable (f.problem line) := by
  cases f with
  | unreadable reason => exact absurd rfl (readable reason)
  | _ => exact ⟨rfl, rfl⟩

theorem numberReadable {cs : List Char} {f : Fault} (h : number cs = .fault f) : Readable f := by
  unfold number at h
  dsimp only at h
  split at h
  · contradiction
  · contradiction
  · cases Element.fault.inj h
    exact fun _ => Fault.noConfusion

theorem commentNoFault (c : Cursor) (f : Fault) : (comment c).1 ≠ .fault f := by
  rw [commentMarked]
  unfold commentBody
  dsimp only
  split <;> exact Element.noConfusion

theorem sizedReadable {n : Nat} {c : Cursor} {make : Bytes → Element} {f : Fault}
    (clean : Faultless make) (h : (sized n c make).1 = .fault f) : Readable f := by
  unfold sized at h
  split at h
  · exact absurd h (clean _ f)
  · cases Element.fault.inj h
    exact fun _ => Fault.noConfusion

theorem binaryReadable {op : UInt8} {c : Cursor} {f : Fault} (h : (binary op c).1 = .fault f) :
    Readable f := by
  have shape := binaryShape op c
  generalize binary op c = x at shape h
  cases shape with
  | sized n clean => exact sizedReadable clean.faultless h
  | counted width unit clean =>
    unfold counted at h
    split at h
    · exact sizedReadable clean.faultless h
    · cases Element.fault.inj h
      exact fun _ => Fault.noConfusion
  | reserved => contradiction

theorem elementReadable {b : UInt8} {c : Cursor} {f : Fault} (h : (elementAt b c).1 = .fault f) :
    Readable f := by
  unfold elementAt at h
  split at h
  · exact binaryReadable h
  split at h
  · contradiction
  split at h
  · contradiction
  split at h
  · exact absurd h (commentNoFault c f)
  split at h
  · split at h
    · contradiction
    · cases Element.fault.inj h
      exact fun _ => Fault.noConfusion
  split at h
  · exact numberReadable h
  split at h
  · contradiction
  · cases Element.fault.inj h
    exact fun _ => Fault.noConfusion

theorem scanReadable {c : Cursor} {s : Scan} {f : Fault} (found : scan? c = some s)
    (fault : s.element = .fault f) : Readable f := by
  unfold scan? at found
  dsimp only at found
  split at found
  · contradiction
  · cases Option.some.inj found
    exact elementReadable fault

theorem stepRecoverable {c : Cursor} {s : Scan} {d after : Definitions} {p : Problem}
    (found : scan? c = some s) (given : d.step s = (after, some (.error p))) : Recoverable p := by
  have accepted : ∀ t, d.accept t s.line = (after, some (.error p)) → Recoverable p := by
    intro t h
    unfold Definitions.accept at h
    split at h
    · cases h
    · split at h
      · cases h
      · cases h
        exact readableProblem (fun _ => Fault.noConfusion) _
  unfold Definitions.step at given
  split at given
  · exact accepted _ given
  · cases given
  · split at given
    · exact accepted _ given
    · cases given
      exact readableProblem (fun _ => Fault.noConfusion) _
  · cases given
  · rename_i fault
    cases given
    exact readableProblem (scanReadable found fault) _

theorem finishRecoverable {d : Definitions} {last : Nat} {x : Lexed} {p : Problem}
    (member : x ∈ d.finish last) (failed : x.result = .error p) : Recoverable p := by
  unfold Definitions.finish at member
  split at member
  · contradiction
  · cases List.mem_singleton.mp member
    cases failed
    exact readableProblem (fun _ => Fault.noConfusion) _

theorem lexedFromAll {P : Except Problem Lexeme → Prop}
    (each : ∀ {c : Cursor} {s : Scan} {d after : Definitions} {result : Except Problem Lexeme},
      scan? c = some s → d.step s = (after, some result) → P result)
    (last : Nat) (ended : ∀ (d : Definitions), ∀ x ∈ d.finish last, P x.result)
    (d : Definitions) (c : Cursor) {x : Lexed} (member : x ∈ lexedFrom last d c) : P x.result := by
  cases found : scan? c with
  | none =>
    rw [lexedFromEnd found] at member
    exact ended d x member
  | some s =>
    have shorter := scanShorter found
    cases given : d.step s with
    | mk after result =>
      cases result with
      | none =>
        rw [lexedFromSilent found given] at member
        exact lexedFromAll each last ended after s.after member
      | some result =>
        rw [lexedFromNext found given] at member
        cases member with
        | head => exact each found given
        | tail _ member => exact lexedFromAll each last ended after s.after member
  termination_by c.rest.length

theorem lexedRecoverable {bytes : Bytes} {p : Problem}
    (member : .error p ∈ (lexed bytes).map Lexed.result) : Recoverable p := by
  obtain ⟨x, member, failed⟩ := List.mem_map.mp member
  rw [lexedStart] at member
  refine lexedFromAll (P := fun result => result = .error p → Recoverable p) ?_ _ ?_ _ _ member failed
  · rintro c s d after _ found given rfl
    exact stepRecoverable found given
  · exact fun d x inside failed => finishRecoverable inside failed

end SceneStream.Stream
