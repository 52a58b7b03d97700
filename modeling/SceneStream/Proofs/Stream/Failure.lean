import SceneStream.Proofs.Stream.Accounting
import SceneStream.Stream.Encoding

/-! Sources that fail. What they gave whole is read as ever, one severe problem tells of the failure,
and behind it comes only what the request that was being read still holds. -/
namespace SceneStream.Stream

/-! Whole elements: only the last of a stream is cut short. -/

def EndsIfCut (x : Element × Cursor × Bool) : Prop := x.2.2 = true → x.2.1.rest = []

theorem payloadMissing {n : Nat} {c after : Cursor} (missing : c.payload n = (none, after)) :
    after.rest = [] := by
  unfold Cursor.payload at missing
  split at missing <;> cases missing
  rfl

theorem sizedCut (n : Nat) (c : Cursor) (make : Bytes → Element) : EndsIfCut (sized n c make) := by
  unfold sized
  split
  · exact fun cut => nomatch cut
  · exact fun _ => payloadMissing ‹_›

theorem countedCut (width unit : Nat) (c : Cursor) (make : Bytes → Element) :
    EndsIfCut (counted width unit c make) := by
  unfold counted
  split
  · exact sizedCut _ _ make
  · exact fun _ => payloadMissing ‹_›

theorem binaryCut (op : UInt8) (c : Cursor) : EndsIfCut (binary op c) := by
  have shape := binaryShape op c
  generalize binary op c = x at shape ⊢
  cases shape with
  | sized n => exact sizedCut n c _
  | counted width unit => exact countedCut width unit c _
  | reserved => exact fun cut => nomatch cut

theorem commentCut (c : Cursor) : EndsIfCut (comment c) := by
  rw [commentMarked]
  unfold commentBody Cursor.textByte?
  dsimp only
  cases rest : ((commentMarks c).2.textWhile (· != newline)).2.rest with
  | nil => exact fun _ => rest
  | cons b tail => exact fun cut => nomatch cut

theorem stringBodyOpen {inside : Inside} {done : Bytes} {line : Nat} {bytes : Bytes} {after : Cursor}
    (unterminated : stringBody inside done line bytes = (none, after)) : after.rest = [] := by
  induction bytes generalizing inside done line with
  | nil =>
    cases unterminated
    rfl
  | cons b rest ih =>
    unfold stringBody at unterminated
    dsimp only at unterminated
    split at unterminated
    · cases unterminated
    · exact ih unterminated

theorem elementCut (b : UInt8) (c : Cursor) : EndsIfCut (elementAt b c) := by
  unfold elementAt
  split
  · exact binaryCut b c
  split
  · exact fun cut => nomatch cut
  split
  · exact fun cut => nomatch cut
  split
  · exact commentCut c
  split
  · split
    · exact fun cut => nomatch cut
    · exact fun _ => stringBodyOpen ‹_›
  split
  · exact List.isEmpty_iff.mp
  split
  · exact List.isEmpty_iff.mp
  · exact fun cut => nomatch cut

theorem scanCut {c : Cursor} {s : Scan} (found : scan? c = some s) (cut : s.cut = true) :
    s.after.rest = [] := by
  unfold scan? at found
  dsimp only at found
  split at found
  · contradiction
  · cases Option.some.inj found
    exact elementCut _ _ cut

/-- The elements that a source gave whole before it failed. -/
def whole (bytes : Bytes) : List Scan := (scans bytes).filter (!·.cut)

theorem wholeFrom (c : Cursor) : (scansFrom c).filter (!·.cut) <+: scansFrom c := by
  rw [scansFromStep]
  cases found : scan? c with
  | none => exact List.prefix_rfl
  | some s =>
    have shorter := scanShorter found
    cases cut : s.cut with
    | false =>
      simp only [List.filter_cons, cut, Bool.not_false, if_true]
      exact List.prefix_cons_inj s |>.mpr (wholeFrom s.after)
    | true =>
      have nothing : scansFrom s.after = [] := by
        unfold scansFrom
        rw [scanCut found cut]
        rfl
      simp [cut, nothing]
  termination_by c.rest.length

theorem wholePrefix (bytes : Bytes) : whole bytes <+: scans bytes := wholeFrom (.start bytes)

namespace Definitions

def feed : Definitions → List Scan → Definitions × List Lexed
  | d, [] => (d, [])
  | d, s :: rest =>
    let (after, result) := d.step s
    let (last, more) := feed after rest
    (last, (result.map (⟨·, s.after.line⟩)).toList ++ more)

theorem runFeed (last : Nat) (d : Definitions) (first rest : List Scan) :
    run last d [] (first ++ rest) = (d.feed first).2 ++ run last (d.feed first).1 [] rest := by
  induction first generalizing d with
  | nil => rfl
  | cons s first ih =>
    simp only [List.cons_append, run, feed]
    cases given : d.step s with
    | mk after result =>
      cases result with
      | none => simpa using ih after
      | some result =>
        dsimp only
        rw [runDone, ih after]
        simp

end Definitions

def delivered (bytes : Bytes) : List Result :=
  (Definitions.empty.feed (whole bytes)).2.map Lexed.result

def failure (reason : String) : Problem :=
  .of .system s!"stream read failed: {reason}"

theorem failingLexed (bytes : Bytes) (reason : String) :
    (Source.lexed ⟨bytes, some reason⟩).map Lexed.result =
      delivered bytes ++ [.error (failure reason)] := by
  unfold Source.lexed Source.scans
  dsimp only
  rw [show (scans bytes).filter (!·.cut) = whole bytes from rfl, Definitions.runFeed, List.map_append]
  rfl

theorem deliveredPrefix (bytes : Bytes) : delivered bytes <+: (lexed bytes).map Lexed.result := by
  obtain ⟨rest, same⟩ := wholePrefix bytes
  have all : lexed bytes = Definitions.run (lastLine bytes) .empty [] (whole bytes ++ rest) := by
    rw [same]
    rfl
  rw [all, Definitions.runFeed, List.map_append]
  exact List.prefix_append _ _

/-! Phases up to the failure. -/

namespace Phase

/-- The phase after some results, and the items that were complete by then. -/
def feed : Phase → List Result → Phase × List Item
  | phase, [] => (phase, [])
  | phase, x :: rest =>
    let (last, more) := feed (phase.step x).1 rest
    (last, (phase.step x).2 ++ more)

theorem runFeed (phase : Phase) (first rest : List Result) :
    itemsRun phase (first ++ rest) = (phase.feed first).2 ++ itemsRun (phase.feed first).1 rest := by
  induction first generalizing phase with
  | nil => rfl
  | cons x first ih => simp only [List.cons_append, itemsRun, feed, ih, List.append_assoc]

/-- Items that are certain though the next name has not come: those passed over, or the problems for
which the request is given up. -/
def certain : Phase → List Item
  | idle | ended => []
  | skipping items => items.reverse
  | drafting d => d.problems.reverse.map fun p => .error (p.atLine d.line)

/-- What a severe problem finds unfinished: the open array, and the comments held back. -/
def unfinished : Phase → List Item
  | drafting d => (d.array.map fun c => .error (unclosedArray c)).toList ++
      d.comments.reverse.map remark
  | _ => []

def line? : Phase → Option Nat
  | drafting d => some d.line
  | _ => none

theorem finishParts (d : Draft) {p : Problem} {problems : List Problem}
    (failed : d.problems = p :: problems) :
    d.finish = (drafting d).certain ++ (drafting d).unfinished := by
  obtain ⟨kind, line, params, _, comments, array⟩ := d
  cases failed
  cases array with
  | none => simp [Draft.finish, Draft.allProblems, certain, unfinished]
  | some c =>
    simp [Draft.finish, Draft.allProblems, certain, unfinished, unclosedArray, Problem.atLineOnce]

theorem endedRun (xs : List Result) : itemsRun .ended xs = [] := by
  induction xs with
  | nil => rfl
  | cons x xs ih => exact ih

theorem severeRun {phase : Phase} (going : phase ≠ .ended) {p : Problem} (severe : p.isSevere)
    (placeless : p.line = none) (later : List Result) :
    itemsRun phase (.error p :: later) =
      phase.certain ++ .error { p with line := phase.line? } :: phase.unfinished := by
  have same : { p with line := none } = p := by rw [← placeless]
  cases phase with
  | idle => simp [itemsRun, step, severe, endedRun, certain, unfinished, line?, same]
  | skipping items => simp [itemsRun, step, severe, endedRun, certain, unfinished, line?, same]
  | ended => contradiction
  | drafting d =>
    have moved : p.atLine d.line = { p with line := some d.line } := by
      simp [Problem.atLine, placeless]
    simp only [itemsRun, step, severe, if_true, endedRun, List.append_nil]
    rw [finishParts (d.fail p) rfl]
    simp [certain, unfinished, line?, Draft.fail, moved]

theorem stepGoing {phase : Phase} (going : phase ≠ .ended) {x : Result}
    (recoverable : ∀ p, x = .error p → Recoverable p) : (phase.step x).1 ≠ .ended := by
  cases x with
  | error p =>
    have mild := (recoverable p rfl).2
    cases phase <;> simp_all [step]
  | ok l =>
    obtain ⟨token, line⟩ := l
    have entered : ∀ s, enter s line ≠ .ended := by
      intro s
      unfold enter
      split <;> exact Phase.noConfusion
    cases phase with
    | ended => contradiction
    | idle => cases token <;> first | exact entered _ | exact Phase.noConfusion
    | drafting d => cases token <;> first | exact entered _ | exact Phase.noConfusion
    | skipping items =>
      cases token with
      | name s =>
        simp only [step]
        split <;> exact Phase.noConfusion
      | _ => exact Phase.noConfusion

theorem feedGoing {phase : Phase} (going : phase ≠ .ended) {xs : List Result}
    (recoverable : ∀ p, .error p ∈ xs → Recoverable p) : (phase.feed xs).1 ≠ .ended := by
  induction xs generalizing phase with
  | nil => exact going
  | cons x xs ih =>
    refine ih (stepGoing going ?_) fun p member => recoverable p (by simp [member])
    exact fun p same => recoverable p (by simp [same])

theorem gatherCertain (d : Draft) (x : Result) (nameless : name? x = none) :
    (drafting d).certain <+: (drafting (d.gather x)).certain := by
  rw [gatherTaken d nameless]
  simp [certain]

theorem finishCertain (d : Draft) : (drafting d).certain <+: d.finish := by
  cases failed : d.problems with
  | nil => simp [certain, failed]
  | cons p problems =>
    rw [finishParts d failed]
    exact List.prefix_append _ _

theorem stepCertain (phase : Phase) (x : Result) :
    phase.certain <+: (phase.step x).2 ++ (phase.step x).1.certain := by
  cases phase with
  | idle => exact List.nil_prefix
  | ended => exact List.nil_prefix
  | skipping items =>
    cases x with
    | error p =>
      simp only [step]
      split <;> simp [certain]
    | ok l =>
      obtain ⟨token, line⟩ := l
      cases token with
      | name s =>
        simp only [step]
        split <;> simp [certain]
      | _ => simp [step, certain]
  | drafting d =>
    cases x with
    | error p =>
      simp only [step]
      split
      · have kept := (gatherCertain d (.error p) rfl).trans (finishCertain (d.fail p))
        exact kept.trans (List.prefix_append _ _)
      · exact gatherCertain d (.error p) rfl
    | ok l =>
      obtain ⟨token, line⟩ := l
      cases token with
      | name s => exact (finishCertain d).trans (List.prefix_append _ _)
      | _ => exact gatherCertain d (.ok ⟨_, line⟩) rfl

theorem runCertain (phase : Phase) (xs : List Result) : phase.certain <+: itemsRun phase xs := by
  induction xs generalizing phase with
  | nil =>
    cases phase with
    | idle => exact List.prefix_rfl
    | ended => exact List.prefix_rfl
    | skipping items => exact List.prefix_rfl
    | drafting d => exact finishCertain d
  | cons x xs ih =>
    exact (stepCertain phase x).trans ((List.prefix_append_right_inj _).mpr (ih (phase.step x).1))

end Phase

/-! Problems of a stream in memory never end it. -/

theorem passedMild {body : List Result} (recoverable : ∀ p, .error p ∈ body → Recoverable p)
    {p : Problem} (member : .error p ∈ body.filterMap passed?) : p.isSevere = false := by
  have told : p ∈ body.filterMap problem? := by
    rw [← passedProblems]
    exact List.mem_filterMap.mpr ⟨_, member, rfl⟩
  obtain ⟨x, found, same⟩ := List.mem_filterMap.mp told
  cases x with
  | error q =>
    cases same
    exact (recoverable p found).2
  | ok l => contradiction

theorem leadingMild {head : List Result} (recoverable : ∀ p, .error p ∈ head → Recoverable p)
    {p : Problem} (member : .error p ∈ leading head) : p.isSevere = false := by
  induction head with
  | nil => contradiction
  | cons x head ih =>
    have tail : ∀ p, .error p ∈ head → Recoverable p :=
      fun p member => recoverable p (by simp [member])
    cases x with
    | error q =>
      rcases List.mem_cons.mp member with same | later
      · cases same
        exact (recoverable p (by simp)).2
      · exact passedMild tail later
    | ok l =>
      obtain ⟨token, line⟩ := l
      have stray (h : .error p ∈ Except.error (strayValue line) :: head.filterMap passed?) :
          p.isSevere = false := by
        rcases List.mem_cons.mp h with same | later
        · cases same
          rfl
        · exact passedMild tail later
      cases token with
      | comment text structured =>
        rcases List.mem_cons.mp member with same | later
        · contradiction
        · exact ih tail later
      | _ => exact stray member

theorem groupMild {g : Group} (recoverable : ∀ p, .error p ∈ g.body → Recoverable p)
    {p : Problem} (member : .error p ∈ g.items) : p.isSevere = false := by
  unfold Group.items at member
  split at member
  · have told : p ∈ problemsOf none g.body := by
      rcases List.mem_append.mp member with own | comments
      · split at own
        · simp [request] at own
        · simpa using own
      · simp [remark] at comments
    exact (problemsRecoverable recoverable none p told).2
  · rcases List.mem_cons.mp member with same | later
    · cases same
      rfl
    · exact passedMild recoverable later

theorem decodeMild {bytes : Bytes} {p : Problem} (member : .error p ∈ decode bytes) :
    p.isSevere = false := by
  have recoverable (q : Problem) (told : .error q ∈ (lexed bytes).map Lexed.result) :
      Recoverable q := lexedRecoverable told
  obtain ⟨inHead, inGroups⟩ := groupsRecoverable recoverable
  rw [decodeGroups] at member
  rcases List.mem_append.mp member with head | bodies
  · exact leadingMild inHead head
  · obtain ⟨g, group, own⟩ := List.mem_flatMap.mp bodies
    exact groupMild (inGroups g group) own

theorem unfinishedMild {phase : Phase} {p : Problem} (member : .error p ∈ phase.unfinished) :
    p.isSevere = false := by
  cases phase with
  | drafting d =>
    rcases List.mem_append.mp member with array | comments
    · obtain ⟨c, -, same⟩ := Option.map_eq_some_iff.mp (Option.mem_toList.mp array)
      cases same
      rfl
    · simp [remark] at comments
  | _ => contradiction

/-- Where a source is when it fails. -/
def interrupted (bytes : Bytes) : Phase := (Phase.idle.feed (delivered bytes)).1

theorem interruptedGoing (bytes : Bytes) : interrupted bytes ≠ .ended :=
  Phase.feedGoing Phase.noConfusion fun _ member =>
    lexedRecoverable ((deliveredPrefix bytes).subset member)

theorem deliveredItems (bytes : Bytes) :
    (Phase.idle.feed (delivered bytes)).2 ++ (interrupted bytes).certain <+: decode bytes := by
  obtain ⟨rest, same⟩ := deliveredPrefix bytes
  rw [decodeRun, ← same, Phase.runFeed]
  exact (List.prefix_append_right_inj _).mpr (Phase.runCertain _ rest)

theorem failingRun (bytes : Bytes) (reason : String) (later : List Result) :
    itemsRun .idle ((Source.lexed ⟨bytes, some reason⟩).map Lexed.result ++ later) =
      (Phase.idle.feed (delivered bytes)).2 ++ (interrupted bytes).certain ++
        .error { failure reason with line := (interrupted bytes).line? } ::
          (interrupted bytes).unfinished := by
  rw [failingLexed, List.append_assoc, Phase.runFeed, List.append_assoc]
  exact congrArg _ (Phase.severeRun (interruptedGoing bytes) rfl rfl later)

/-- A source that fails gives one severe problem. Before it stand items of its bytes, behind it the open
array and the comments of the request that was being read, and nothing that came later would be seen. -/
theorem failureEndsStream (bytes : Bytes) (reason : String) :
    ∃ before,
      Source.items ⟨bytes, some reason⟩ = before ++
        .error { failure reason with line := (interrupted bytes).line? } ::
          (interrupted bytes).unfinished ∧
      before <+: decode bytes ∧
      (failure reason).isSevere ∧
      (∀ p, .error p ∈ before ++ (interrupted bytes).unfinished → p.isSevere = false) ∧
      ((interrupted bytes).unfinished = [] ↔
        ∀ d, interrupted bytes = .drafting d → d.array = none ∧ d.comments = []) ∧
      ∀ later, itemsRun .idle ((Source.lexed ⟨bytes, some reason⟩).map Lexed.result ++ later) =
        Source.items ⟨bytes, some reason⟩ := by
  have items : ∀ later, itemsRun .idle
      ((Source.lexed ⟨bytes, some reason⟩).map Lexed.result ++ later) =
        Source.items ⟨bytes, some reason⟩ := by
    intro later
    rw [Source.items, Source.placed, itemsFromRun, failingRun, ← failingRun bytes reason []]
    simp
  refine ⟨_, (items []).symm.trans (failingRun bytes reason []), deliveredItems bytes, rfl, ?_, ?_,
    items⟩
  · intro p member
    rcases List.mem_append.mp member with before | behind
    · exact decodeMild ((deliveredItems bytes).subset before)
    · exact unfinishedMild behind
  · cases interrupted bytes with
    | drafting d => simp [Phase.unfinished]
    | _ => simp [Phase.unfinished]

/-- An array that is open when the source fails is told of behind the severe problem. -/
theorem openArrayBehindFailure :
    ∃ p q, Source.items ⟨bytesOf "Sphere [1 2", some "disk on fire"⟩ = [.error p, .error q] ∧
      p.isSevere = true ∧ q.message = "array is not closed" := by
  refine ⟨{ failure "disk on fire" with line := some 1 }, unclosedArray (.start 1), ?_, rfl, rfl⟩
  rfl

end SceneStream.Stream
