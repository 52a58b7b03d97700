import Mathlib.Data.List.Induction
import SceneStream.Proofs.Stream.Failure

/-! Which element each result of the lexer is told of. A token has the line it was read on; a definition without
its string is told of where its short form was announced, the innermost first. -/
namespace SceneStream.Stream
namespace Definitions

theorem feedAppend (d : Definitions) (first rest : List Scan) : d.feed (first ++ rest) =
    (((d.feed first).1.feed rest).1, (d.feed first).2 ++ ((d.feed first).1.feed rest).2) := by
  induction first generalizing d with
  | nil => rfl
  | cons s first ih => simp only [List.cons_append, feed, ih, List.append_assoc]

theorem feedOne (d : Definitions) (s : Scan) : (d.feed [s]).1 = (d.step s).1 := rfl

theorem feedLast (d : Definitions) (first : List Scan) (s : Scan) :
    (d.feed (first ++ [s])).1 = ((d.feed first).1.step s).1 := by
  rw [feedAppend, feedOne]

/-- The definitions that wait behind some elements, the innermost first. -/
def waitingAfter (before : List Scan) : List (Slot × Nat) := (empty.feed before).1.waiting

/-- An element tells of a token: it is one, or stands for one. -/
def Tells (d : Definitions) (s : Scan) (t : Token) : Prop :=
  s.element = .token t ∨ ∃ slot text, s.element = .recall slot ∧ d.known.lookup slot = some text ∧
    t = Slot.token slot text

/-- The definition that begins with `s` behind `before` still waits behind `inner`, as it did all the while, and
no later one does. -/
structure Waits (before : List Scan) (s : Scan) (inner : List Scan) (slot : Slot) : Prop where
  begins : s.element = .define slot
  waits : ∀ part, part <+: inner →
    (slot, s.line) :: waitingAfter before <:+ waitingAfter (before ++ s :: part)
  innermost : waitingAfter (before ++ s :: inner) = (slot, s.line) :: waitingAfter before

/-- An entry of the waiting definitions was put there by an element, and has stayed there since. -/
def Begun (before : List Scan) (entry : Slot × Nat) (outer : List (Slot × Nat)) : Prop :=
  ∃ first s inner, before = first ++ s :: inner ∧ s.element = .define entry.1 ∧ s.line = entry.2 ∧
    waitingAfter first = outer ∧
    ∀ part, part <+: inner → entry :: outer <:+ waitingAfter (first ++ s :: part)

section Begun
variable {before : List Scan} {entry : Slot × Nat} {outer : List (Slot × Nat)} {s : Scan}

theorem begunNow {slot : Slot} (begins : s.element = .define slot) :
    Begun (before ++ [s]) (slot, s.line) (waitingAfter before) := by
  refine ⟨before, s, [], rfl, begins, rfl, rfl, fun part within => ?_⟩
  rw [List.prefix_nil.mp within]
  simp only [waitingAfter, feedLast, step, begins, List.suffix_rfl]

theorem begunStays (begun : Begun before entry outer) (s : Scan)
    (stays : entry :: outer <:+ waitingAfter (before ++ [s])) : Begun (before ++ [s]) entry outer := by
  obtain ⟨first, x, inner, rfl, begins, line, below, waits⟩ := begun
  refine ⟨first, x, inner ++ [s], by simp, begins, line, below, fun part within => ?_⟩
  rcases List.prefix_concat_iff.mp within with whole | shorter
  · simpa [whole] using stays
  · exact waits part shorter

inductive Shift (s : Scan) (waiting : List (Slot × Nat)) : List (Slot × Nat) → Prop where
  | same : Shift s waiting waiting
  | pushed {slot : Slot} (begins : s.element = .define slot) : Shift s waiting ((slot, s.line) :: waiting)
  | popped {entry : Slot × Nat} {outer : List (Slot × Nat)} (shape : waiting = entry :: outer) :
      Shift s waiting outer
  | cleared : Shift s waiting []

theorem acceptShift (d : Definitions) (s : Scan) (t : Token) (line : Nat) :
    Shift s d.waiting (d.accept t line).1.waiting := by
  unfold accept
  split
  · exact .same
  · rename_i slot at_ outer shape
    split
    · exact .popped shape
    · exact .cleared

theorem stepShift (d : Definitions) (s : Scan) : Shift s d.waiting (d.step s).1.waiting := by
  unfold step
  split
  · exact acceptShift d s _ _
  · rename_i begins
    exact .pushed begins
  · split
    · exact acceptShift d s _ _
    · exact .cleared
  · exact .same
  · exact .cleared

theorem waitingBegun (before : List Scan) {inner : List (Slot × Nat)}
    (shape : waitingAfter before = inner ++ entry :: outer) : Begun before entry outer := by
  induction before using List.reverseRecOn generalizing inner with
  | nil => cases inner <;> cases shape
  | append_singleton before s ih =>
    have stays : entry :: outer <:+ waitingAfter (before ++ [s]) := ⟨inner, shape.symm⟩
    have shift := stepShift (empty.feed before).1 s
    rw [← feedLast] at shift
    change Shift s (waitingAfter before) (waitingAfter (before ++ [s])) at shift
    generalize after : waitingAfter (before ++ [s]) = w at shift shape
    cases shift with
    | same => exact begunStays (ih shape) s stays
    | popped front =>
      rw [shape, ← List.cons_append] at front
      exact begunStays (ih front) s stays
    | cleared => cases inner <;> cases shape
    | pushed begins =>
      cases inner with
      | nil =>
        cases shape
        exact begunNow begins
      | cons last inner =>
        obtain ⟨rfl, below⟩ := List.cons_eq_cons.mp shape
        exact begunStays (ih below) s stays

end Begun

theorem innermostWaits {before : List Scan} {slot : Slot} {line : Nat} {outer : List (Slot × Nat)}
    (shape : waitingAfter before = (slot, line) :: outer) :
    ∃ first s inner, before = first ++ s :: inner ∧ s.line = line ∧ Waits first s inner slot := by
  obtain ⟨first, s, inner, rfl, begins, rfl, rfl, waits⟩ := waitingBegun before (shape.trans (List.nil_append _).symm)
  exact ⟨first, s, inner, rfl, rfl, begins, waits, shape⟩

end Definitions

open Definitions (Tells Waits waitingAfter)

def shownLine : Result → Option Nat
  | .ok l => some l.line
  | .error p => p.line

/-- A result among all elements: the results that came before it, and the element it is told of. -/
inductive Blamed (all : List Scan) : List Lexed → Result → Scan → Prop where
  | token {before after : List Scan} {s : Scan} {t : Token} (cut : all = before ++ s :: after)
      (tells : Tells (Definitions.empty.feed before).1 s t) (free : waitingAfter before = []) :
      Blamed all (Definitions.empty.feed before).2 (.ok ⟨t, s.line⟩) s
  | fault {before after : List Scan} {s : Scan} {f : Fault} (cut : all = before ++ s :: after)
      (read : s.element = .fault f) :
      Blamed all (Definitions.empty.feed before).2 (.error (f.problem s.line)) s
  | undefined {before after : List Scan} {s : Scan} {slot : Slot} (cut : all = before ++ s :: after)
      (read : s.element = .recall slot) (unknown : (Definitions.empty.feed before).1.known.lookup slot = none) :
      Blamed all (Definitions.empty.feed before).2 (.error ((Fault.undefined slot).problem s.line)) s
  | notDefined {before inner after : List Scan} {s x : Scan} {slot : Slot} {t : Token}
      (cut : all = before ++ s :: inner ++ x :: after) (waits : Waits before s inner slot)
      (tells : Tells (Definitions.empty.feed (before ++ s :: inner)).1 x t) (other : ∀ text, t ≠ .string text) :
      Blamed all (Definitions.empty.feed (before ++ s :: inner)).2 (.error (Fault.notDefined.problem s.line)) s
  | truncated {before inner : List Scan} {s : Scan} {slot : Slot} (cut : all = before ++ s :: inner)
      (waits : Waits before s inner slot) :
      Blamed all (Definitions.empty.feed all).2 (.error (Fault.truncated.problem s.line)) s

section Blamed
variable {all before after : List Scan} {s : Scan}

theorem acceptBlamed {t : Token} {x : Result} (cut : all = before ++ s :: after)
    (tells : Tells (Definitions.empty.feed before).1 s t)
    (given : ((Definitions.empty.feed before).1.accept t s.line).2 = some x) :
    ∃ s', Blamed all (Definitions.empty.feed before).2 x s' := by
  unfold Definitions.accept at given
  split at given
  · rename_i free
    cases given
    exact ⟨s, .token cut tells free⟩
  · rename_i slot line outer shape
    split at given
    · cases given
    · rename_i other
      cases given
      obtain ⟨first, d, inner, rfl, rfl, waits⟩ := Definitions.innermostWaits shape
      exact ⟨d, .notDefined cut waits tells other⟩

theorem stepBlamed {x : Result} (cut : all = before ++ s :: after)
    (given : ((Definitions.empty.feed before).1.step s).2 = some x) :
    ∃ s', Blamed all (Definitions.empty.feed before).2 x s' := by
  unfold Definitions.step at given
  split at given
  · rename_i t read
    exact acceptBlamed cut (.inl read) given
  · cases given
  · rename_i slot read
    split at given
    · rename_i text known
      exact acceptBlamed cut (.inr ⟨slot, text, read, known, rfl⟩) given
    · rename_i unknown
      cases given
      exact ⟨s, .undefined cut read unknown⟩
  · cases given
  · rename_i f read
    cases given
    exact ⟨s, .fault cut read⟩

theorem feedGiven (d : Definitions) {all : List Scan} {done later : List Lexed} {x : Lexed}
    (given : (d.feed all).2 = done ++ x :: later) :
    ∃ before s after, all = before ++ s :: after ∧ (d.feed before).2 = done ∧
      ((d.feed before).1.step s).2 = some x.result := by
  induction all generalizing d done with
  | nil => cases done <;> cases given
  | cons s all ih =>
    simp only [Definitions.feed] at given
    cases result : (d.step s).2 with
    | none =>
      rw [result] at given
      obtain ⟨before, y, after, rfl, same, step⟩ := ih (d.step s).1 given
      exact ⟨s :: before, y, after, rfl, by simpa [Definitions.feed, result] using same, step⟩
    | some r =>
      rw [result] at given
      cases done with
      | nil =>
        cases given
        exact ⟨[], s, all, rfl, rfl, result⟩
      | cons y done =>
        obtain ⟨rfl, rest⟩ := List.cons_eq_cons.mp given
        obtain ⟨before, z, after, rfl, same, step⟩ := ih (d.step s).1 rest
        exact ⟨s :: before, z, after, rfl, by simp [Definitions.feed, result, same], step⟩

theorem lexedFeed (bytes : Bytes) : lexed bytes = (Definitions.empty.feed (scans bytes)).2 ++
    (Definitions.empty.feed (scans bytes)).1.finish (lastLine bytes) := by
  have run := Definitions.runFeed (lastLine bytes) .empty (scans bytes) []
  rwa [List.append_nil] at run

theorem finishBlamed {last : Nat} {done later : List Lexed} {x : Lexed}
    (given : (Definitions.empty.feed all).1.finish last = done ++ x :: later) :
    done = [] ∧ ∃ s, Blamed all (Definitions.empty.feed all).2 x.result s := by
  unfold Definitions.finish at given
  split at given
  · cases done <;> cases given
  · rename_i slot line outer shape
    cases done with
    | nil =>
      cases given
      obtain ⟨before, s, inner, cut, rfl, waits⟩ := Definitions.innermostWaits shape
      exact ⟨rfl, s, .truncated cut waits⟩
    | cons y done => cases done <;> cases given

theorem lexedBlamed {bytes : Bytes} {done later : List Lexed} {x : Lexed}
    (given : lexed bytes = done ++ x :: later) : ∃ s, Blamed (scans bytes) done x.result s := by
  have fed {more : List Lexed} (same : (Definitions.empty.feed (scans bytes)).2 = done ++ x :: more) :
      ∃ s, Blamed (scans bytes) done x.result s := by
    obtain ⟨before, s, after, cut, rfl, step⟩ := feedGiven .empty same
    exact stepBlamed cut step
  rw [lexedFeed] at given
  rcases List.append_eq_append_iff.mp given with ⟨more, rfl, ended⟩ | ⟨more, same, ended⟩
  · obtain ⟨rfl, blamed⟩ := finishBlamed ended
    rwa [List.append_nil]
  · cases more with
    | nil =>
      obtain ⟨-, blamed⟩ := finishBlamed (ended.symm.trans (List.nil_append _).symm)
      rwa [same, List.append_nil] at blamed
    | cons y more =>
      cases ended
      exact fed same

theorem blamedMember {done : List Lexed} {x : Result} (blamed : Blamed all done x s) : s ∈ all := by
  cases blamed with
  | token cut | fault cut | undefined cut | notDefined cut | truncated cut => simp [cut]

theorem blamedLine {bytes : Bytes} {done : List Lexed} {x : Result} (member : x ∈ (lexed bytes).map Lexed.result)
    (blamed : Blamed (scans bytes) done x s) : shownLine x = some s.line := by
  cases blamed with
  | token => rfl
  | fault cut read =>
    rename_i f
    have placed := (lexedRecoverable member).1
    cases f with
    | unreadable reason => cases placed
    | _ => rfl
  | _ => rfl

end Blamed

end SceneStream.Stream
