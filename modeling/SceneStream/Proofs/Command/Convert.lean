import Mathlib
import SceneStream.Command.Convert

/-! Converting a file changes its output alone, and nothing if it fails. The output is emptied before
the input is read, so a file that is converted onto itself is lost. -/
namespace SceneStream

namespace Files

theorem writtenContents (fs : Files) (p q : Place) (bytes : Stream.Bytes) :
    (fs.write p bytes).contents? q = if q = p then some bytes else fs.contents? q := by
  have others (l : List (Place × Stream.Bytes)) (apart : q ≠ p) :
      (l.filter (·.1 != p)).lookup q = l.lookup q := by
    induction l with
    | nil => rfl
    | cons x l ih =>
      obtain ⟨k, b⟩ := x
      by_cases same : k = p
      · rw [List.filter_cons_of_neg (by simpa using same), ih, List.lookup_cons,
          show (q == k) = false by simpa [same] using apart]
      · rw [List.filter_cons_of_pos (by simpa using same), List.lookup_cons, List.lookup_cons, ih]
  unfold write contents?
  rw [List.lookup_cons]
  by_cases same : q = p
  · rw [if_pos same, same, BEq.rfl]
  · rw [if_neg same, beq_eq_false_iff_ne.mpr same, others _ same]

theorem createWrites {fs after : Files} {path : String} {p : Place}
    (made : fs.create path = .ok (after, p)) : after = fs.write p [] := by
  unfold create at made
  cases start : fs.startOf path with
  | error f => rw [start] at made; cases made
  | ok s =>
    rw [start] at made
    dsimp only [bind, Except.bind] at made
    split at made
    · cases made
    · split at made
      · cases made
      · cases made
        rfl

end Files

namespace Command
open SceneStream.Stream

/-- A conversion that is asked for and can be done: into which encoding, from which place to which. -/
def Asks (files : Files) (args : List String) (encoding : Encoding) (source target : Place) : Prop :=
  ∃ input output options overwrites, args = input :: output :: options ∧
    convertOptions ⟨none, false⟩ options = .ok ⟨some encoding, overwrites⟩ ∧
    (files.pathExists output → overwrites) ∧ files.find input = .ok source ∧
    ∃ emptied, files.create output = .ok (emptied, target)

/-- The bytes of all that is read from a source, in an encoding. -/
def converted (encoding : Encoding) (s : Source) : Bytes := encode encoding (entries s.items)

theorem actBind {α β : Type} (x : Act α) (f : α → Act β) (files : Files) :
    (x >>= f) files = match x files with
      | (.ok a, after) => f a after
      | (.error e, after) => (.error e, after) := by
  simp only [bind, ExceptT.bind, ExceptT.mk, StateT.bind]
  cases x files with
  | mk result after => cases result <;> rfl

theorem lookBind {α β : Type} (look' : Files → Except Fault α) (f : α → Act β) (files : Files) :
    (look look' >>= f) files = match look' files with
      | .ok a => f a files
      | .error e => (.error e, files) := by
  rw [actBind, look]
  cases look' files <;> rfl

theorem convertFileRuns (files : Files) (input output : String) (encoding : Encoding) :
    match files.find input, files.create output with
    | .ok source, .ok (emptied, target) => ∃ report, convertFile input output encoding files =
        (.ok report, emptied.write target (converted encoding (emptied.sourceAt source)))
    | _, _ => ∃ f, convertFile input output encoding files = (.error f, files) := by
  unfold convertFile
  rw [lookBind]
  cases found : files.find input with
  | error f => exact ⟨.cannotOpen input f, rfl⟩
  | ok source =>
    simp only [Except.mapError]
    rw [lookBind]
    cases made : files.create output with
    | error f => exact ⟨.cannotCreate output f, rfl⟩
    | ok pair => exact ⟨_, rfl⟩

theorem sourceEmptied (files : Files) (source target : Place) :
    (files.write target []).sourceAt source =
      if source = target then ⟨[], none⟩ else files.sourceAt source := by
  unfold Files.sourceAt
  rw [Files.writtenContents]
  by_cases same : source = target
  · rw [if_pos same, if_pos same]
  · rw [if_neg same, if_neg same]

theorem convertedNothing (encoding : Encoding) : converted encoding ⟨[], none⟩ = [] := by
  cases encoding <;> rfl

inductive Ended (files : Files) (args : List String) : Except Fault Report × Files → Prop where
  | refused (f : Fault) (unasked : ∀ encoding source target, ¬ Asks files args encoding source target) :
      Ended files args (.error f, files)
  | done {encoding : Encoding} {source target : Place} (report : Report)
      (asked : Asks files args encoding source target) :
      Ended files args (.ok report, (files.write target []).write target
        (converted encoding ((files.write target []).sourceAt source)))

theorem convertEnds (files : Files) (args : List String) : Ended files args (convert args files) := by
  match args with
  | [] => exact .refused _ (by rintro _ _ _ ⟨_, _, _, _, ⟨⟩, _⟩)
  | [_] => exact .refused _ (by rintro _ _ _ ⟨_, _, _, _, ⟨⟩, _⟩)
  | input :: output :: options =>
    rw [convert, lookBind]
    cases parsed : convertOptions ⟨none, false⟩ options with
    | error f =>
      refine .refused f ?_
      rintro _ _ _ ⟨_, _, _, _, ⟨⟩, chosen, _⟩
      exact absurd (parsed.symm.trans chosen) nofun
    | ok o =>
      obtain ⟨encoding, overwrites⟩ := o
      cases encoding with
      | none =>
        refine .refused .noEncoding ?_
        rintro _ _ _ ⟨_, _, _, _, ⟨⟩, chosen, _⟩
        exact absurd (parsed.symm.trans chosen) nofun
      | some encoding =>
        dsimp only
        rw [lookBind, ensureWritable]
        by_cases guarded : files.pathExists output ∧ !overwrites
        · rw [if_pos guarded]
          refine .refused _ ?_
          rintro _ _ _ ⟨_, _, _, _, ⟨⟩, chosen, allowed, _⟩
          cases Except.ok.inj (parsed.symm.trans chosen)
          simp [allowed guarded.1] at guarded
        · rw [if_neg guarded]
          have allowed (there : files.pathExists output) : overwrites := by simpa [there] using guarded
          have ran := convertFileRuns files input output encoding
          split at ran
          · rename_i source emptied target found made
            obtain ⟨report, ran⟩ := ran
            rw [ran, Files.createWrites made]
            exact .done report ⟨_, _, _, _, rfl, parsed, allowed, found, _, made⟩
          · rename_i unopened
            obtain ⟨f, ran⟩ := ran
            rw [ran]
            refine .refused f ?_
            rintro _ _ _ ⟨_, _, _, _, ⟨⟩, -, -, found, _, made⟩
            exact unopened _ _ _ found made

/-- A conversion that is not asked for, or cannot be done, leaves every file. One that is done leaves in
its output what was read from its input, and all other files; but nothing if it was its own input. -/
theorem convertWritesOrKeeps (files : Files) (args : List String) :
    match convert args files with
    | (.ok _, after) => ∃ encoding source target, Asks files args encoding source target ∧
        after.contents? target =
          some (if source = target then [] else converted encoding (files.sourceAt source)) ∧
        ∀ p, p ≠ target → after.contents? p = files.contents? p
    | (.error _, after) => after = files ∧
        ∀ encoding source target, ¬ Asks files args encoding source target := by
  cases ended : convert args files with
  | mk result after =>
    have ends := convertEnds files args
    rw [ended] at ends
    cases ends with
    | refused f unasked => exact ⟨rfl, unasked⟩
    | @done encoding source target report asked =>
      refine ⟨encoding, source, target, asked, ?_, fun p apart => ?_⟩
      · rw [Files.writtenContents, if_pos rfl, sourceEmptied]
        split
        · rw [convertedNothing]
        · rfl
      · rw [Files.writtenContents, if_neg apart, Files.writtenContents, if_neg apart]

def ball : Files := (Files.bare ["home"]).write ["home", "b"] (bytesOf "Sphere 1 -1 1 360\n")

theorem ontoItselfLost :
    let ended := convert ["b", "./b", "--ascii", "--overwrite"] ball
    ended.1.isOk ∧ ended.2.contents? ["home", "b"] = some [] ∧
    converted .text (ball.sourceAt ["home", "b"]) = bytesOf "Sphere 1 -1 1 360\n" :=
  ⟨by cbv, by cbv, by decide +kernel⟩

end Command
end SceneStream
