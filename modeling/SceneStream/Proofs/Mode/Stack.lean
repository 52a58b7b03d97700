import SceneStream.Proofs.Session.Shape
import SceneStream.Proofs.Work

/-! Stacks of open blocks. What is accepted opens or closes one block, and a request is allowed where the
block that it opens or closes can be. Whatever is called, the blocks that are open stand in each other as
the groups of requests allow. -/
namespace SceneStream

theorem pushedModes {modes after : ModeStack} {m : Mode} (ok : modes.push m = .ok after) :
    after = ⟨m :: modes.blocks⟩ ∧ modes.mayOpen m = true := by
  unfold ModeStack.push at ok
  split at ok
  · rename_i may
    cases ok
    exact ⟨rfl, may⟩
  · cases ok

theorem poppedModes {modes after : ModeStack} {m : Mode} (ok : modes.pop m = .ok after) :
    modes.blocks = m :: after.blocks := by
  unfold ModeStack.pop at ok
  split at ok
  · cases ok
  · rename_i top rest eq
    split at ok
    · rename_i same
      cases ok
      rw [eq, same]
    · cases ok

theorem popTop {modes : ModeStack} {m : Mode} {rest : List Mode} (top : modes.blocks = m :: rest) :
    modes.pop m = .ok ⟨rest⟩ := by
  simp [ModeStack.pop, top]

theorem pushAllowed {modes : ModeStack} {m : Mode} (may : modes.mayOpen m = true) :
    modes.push m = .ok ⟨m :: modes.blocks⟩ := by
  simp [ModeStack.push, may]

theorem pushExpected {modes : ModeStack} {m : Mode} {p : Problem} (refused : modes.push m = .error p) :
    p.Expected := by
  unfold ModeStack.push at refused
  split at refused
  · cases refused
  · cases refused
    exact nofun

theorem popExpected {modes : ModeStack} {m : Mode} {p : Problem} (refused : modes.pop m = .error p) :
    p.Expected := by
  unfold ModeStack.pop at refused
  split at refused
  · cases refused
    exact nofun
  · split at refused
    · cases refused
    · cases refused
      exact nofun

theorem leftOpenExpected {modes : ModeStack} {p : Problem} (warning : modes.leftOpen = some p) :
    p.Expected := by
  unfold ModeStack.leftOpen at warning
  split at warning
  · cases warning
  · cases warning
  · cases warning
    exact nofun

theorem mayOpenContext {modes : ModeStack} (may : modes.mayOpen .context = true) :
    ∀ m ∈ modes.blocks, m.isTransparent = true := by
  unfold ModeStack.mayOpen at may
  split at may
  · rename_i none
    intro m member
    simpa using List.find?_eq_none.mp none m member
  · cases may

theorem mayOpenInner {modes : ModeStack} {m : Mode} (may : modes.mayOpen m = true)
    (inner : m ≠ .context) : modes.blocks ≠ [] := by
  intro closed
  have outside : modes.effective? = none := by simp [ModeStack.effective?, closed]
  simp [ModeStack.mayOpen, outside, inner] at may

theorem groundedEffective {modes : ModeStack} (grounded : Shape.Grounded modes.blocks)
    (isOpen : modes.blocks ≠ []) : modes.effective? ≠ none := by
  obtain closed | ⟨inner, eq, -⟩ := grounded
  · exact absurd closed isOpen
  · intro none
    have transparent := List.find?_eq_none.mp none .context (by simp [eq])
    exact transparent rfl

theorem openedObject {k : RequestKind} (opened : Mode.openedBy k = some .object) :
    k = .objectBegin := by
  unfold Mode.openedBy at opened
  split at opened <;> first | rfl | cases opened

theorem openedContext {k : RequestKind} (opened : Mode.openedBy k = some .context) :
    k = .beginContext := by
  unfold Mode.openedBy at opened
  split at opened <;> first | rfl | cases opened

theorem openedGroup {k : RequestKind} {m : Mode} (opened : Mode.openedBy k = some m) :
    k.group = m.group := by
  unfold Mode.openedBy at opened
  split at opened <;> cases opened <;> rfl

theorem openedNotClosed {k : RequestKind} {m : Mode} (opened : Mode.openedBy k = some m) :
    Mode.closedBy k = none := by
  unfold Mode.openedBy at opened
  split at opened <;> cases opened <;> rfl

theorem openedNotEnd {k : RequestKind} {m : Mode} (opened : Mode.openedBy k = some m) :
    k ≠ .endContext := by
  rintro rfl
  cases opened

theorem openedInner {k : RequestKind} {m : Mode} (opened : Mode.openedBy k = some m)
    (inner : m ≠ .context) : k ≠ .beginContext := by
  rintro rfl
  cases opened
  exact inner rfl

theorem begun {k : RequestKind} {m : Mode} (opened : Mode.openedBy k = some m) :
    (k == .objectBegin) = (m == .object) := by
  unfold Mode.openedBy at opened
  split at opened <;> cases opened <;> rfl

theorem notBegun {k : RequestKind} (opens : Mode.openedBy k = none) :
    (k == .objectBegin) = false := by
  refine beq_false_of_ne fun same => ?_
  rw [same] at opens
  cases opens

theorem closedContext {k : RequestKind} (closed : Mode.closedBy k = some .context) :
    k = .endContext := by
  unfold Mode.closedBy at closed
  split at closed <;> first | rfl | cases closed

theorem closedObject {k : RequestKind} (closed : Mode.closedBy k = some .object) :
    k = .objectEnd := by
  unfold Mode.closedBy at closed
  split at closed <;> first | rfl | cases closed

theorem closedByEnd : Mode.closedBy .endContext = some .context := rfl

theorem closedNotOpened {k : RequestKind} {m : Mode} (closed : Mode.closedBy k = some m) :
    Mode.openedBy k = none := by
  unfold Mode.closedBy at closed
  split at closed <;> cases closed <;> rfl

theorem closedInner {k : RequestKind} {m : Mode} (closed : Mode.closedBy k = some m) :
    k ≠ .beginContext := by
  rintro rfl
  cases closed

theorem closedArity {k : RequestKind} {m : Mode} (closed : Mode.closedBy k = some m) :
    k.arity = 0 := by
  unfold Mode.closedBy at closed
  split at closed <;> cases closed <;> rfl

theorem allowedOpen {modes : ModeStack} {k : RequestKind} {m : Mode}
    (allowed : modes.allows k = true) (opened : Mode.openedBy k = some m) :
    modes.mayOpen m = true := by
  have notEnd : (k == .endContext) = false := beq_false_of_ne (openedNotEnd opened)
  unfold ModeStack.allows at allowed
  unfold ModeStack.mayOpen
  split at allowed
  · have same : k = .beginContext := by simpa using allowed
    rw [same] at opened
    cases opened
    rfl
  · split at allowed
    · cases allowed
    · rename_i notBegin
      have inner : m ≠ .context := fun same => notBegin (by simp [openedContext (same ▸ opened)])
      simp only [notEnd, openedNotClosed opened, openedGroup opened, Bool.false_eq_true, if_false] at allowed
      simp [inner, allowed]

theorem allowedClose {modes : ModeStack} {k : RequestKind} {m : Mode}
    (allowed : modes.allows k = true) (closed : Mode.closedBy k = some m) (inner : m ≠ .context) :
    ∃ rest, modes.blocks = m :: rest := by
  have notBegin : (k == .beginContext) = false := by
    refine beq_false_of_ne fun same => ?_
    rw [same] at closed
    cases closed
  have notEnd : (k == .endContext) = false := by
    refine beq_false_of_ne fun same => ?_
    rw [same, closedByEnd] at closed
    cases closed
    exact inner rfl
  unfold ModeStack.allows at allowed
  split at allowed
  · simp [notBegin] at allowed
  · simp only [notBegin, notEnd, closed, Bool.false_eq_true, if_false, beq_iff_eq] at allowed
    exact List.head?_eq_some_iff.mp allowed

namespace ModeStack

inductive Call where
  | push (m : Mode)
  | pop (m : Mode)
  | teardown
  deriving DecidableEq, Repr

/-- A call that is refused leaves no stack behind. -/
def answer (s : ModeStack) : Call → Except Problem ModeStack
  | .push m => s.push m
  | .pop m => s.pop m
  | .teardown => .ok s.teardown.1

def after (s : ModeStack) (c : Call) : ModeStack :=
  match s.answer c with
  | .ok t => t
  | .error _ => s

def ofCalls (calls : List Call) : ModeStack := calls.foldl after empty

/-- The outermost block is the context, and every other one that is not transparent may stand where it
does: in the nearest such block around it. -/
structure Lawful (s : ModeStack) : Prop where
  grounded : Shape.Grounded s.blocks
  permitted : ∀ inner m outer, s.blocks = inner ++ m :: outer → m ≠ .context →
    m.isTransparent = false → ∃ e, effective? ⟨outer⟩ = some e ∧ m.group.allows e = true

theorem groundedBottom {blocks inner outer : List Mode} (grounded : Shape.Grounded blocks)
    (split : blocks = inner ++ .context :: outer) : outer = [] := by
  induction inner generalizing blocks with
  | nil =>
    obtain closed | ⟨above, eq, only⟩ := grounded
    · cases closed.symm.trans split
    · cases above with
      | nil => exact (List.cons.inj (eq.symm.trans split)).2.symm
      | cons n above =>
        cases (List.cons.inj (eq.symm.trans split)).1
        exact absurd (List.mem_cons_self ..) only
  | cons n inner ih =>
    subst split
    exact ih (Shape.groundedPop grounded) rfl

theorem emptyLawful : Lawful empty :=
  ⟨.inl rfl, fun inner m outer split => by cases inner <;> cases split⟩

theorem lawfulPush {s : ModeStack} (lawful : s.Lawful) {m : Mode} (may : s.mayOpen m = true) :
    Lawful ⟨m :: s.blocks⟩ := by
  by_cases root : m = .context
  · -- A context is begun where none is open, so nothing is below it.
    have closed : s.blocks = [] := by
      refine Shape.groundedClosed lawful.grounded fun member => ?_
      exact nomatch mayOpenContext (root ▸ may) .context member
    rw [root, closed]
    refine ⟨.inr ⟨[], rfl, nofun⟩, fun inner n outer split other => ?_⟩
    cases inner with
    | nil =>
      cases split
      exact absurd rfl other
    | cons head inner =>
      cases inner <;> cases split
  · refine ⟨Shape.groundedPush lawful.grounded (mayOpenInner may root) root, ?_⟩
    intro inner n outer split other solid
    cases inner with
    | nil =>
      cases split
      unfold mayOpen at may
      cases effective : s.effective? with
      | none => simp [effective, root] at may
      | some e => exact ⟨e, rfl, by simpa [effective, root, solid] using may⟩
    | cons head inner => exact lawful.permitted inner n outer (List.cons.inj split).2 other solid

theorem lawfulPop {m : Mode} {rest : List Mode} (lawful : Lawful ⟨m :: rest⟩) : Lawful ⟨rest⟩ :=
  ⟨Shape.groundedPop lawful.grounded, fun inner n outer split =>
    lawful.permitted (m :: inner) n outer (congrArg (m :: ·) split)⟩

theorem lawfulAfter {s : ModeStack} (lawful : s.Lawful) (c : Call) : (s.after c).Lawful := by
  unfold after
  cases answered : s.answer c with
  | error p => exact lawful
  | ok t =>
    cases c with
    | push m =>
      obtain ⟨rfl, may⟩ := pushedModes answered
      exact lawfulPush lawful may
    | pop m =>
      have popped : s = ⟨m :: t.blocks⟩ := congrArg ModeStack.mk (poppedModes answered)
      exact lawfulPop (popped ▸ lawful)
    | teardown =>
      cases answered
      exact emptyLawful

theorem callsLawful (calls : List Call) : (ofCalls calls).Lawful := by
  have run (s : ModeStack) (lawful : s.Lawful) : (calls.foldl after s).Lawful := by
    induction calls generalizing s with
    | nil => exact lawful
    | cons c calls ih => exact ih (s.after c) (lawfulAfter lawful c)
  exact run empty emptyLawful

/-! What the groups of requests allow, and so what can stand in what. -/

theorem frameAround {e : Mode} (allowed : Mode.frame.group.allows e = true) : e = .context := by
  cases e <;> first | rfl | cases allowed

theorem worldAround {e : Mode} (allowed : Mode.world.group.allows e = true) :
    e = .context ∨ e = .frame := by
  cases e <;> first | exact .inl rfl | exact .inr rfl | cases allowed

theorem motionHolds {m : Mode} (allowed : m.group.allows .motion = true) :
    m = .context ∨ m.isTransparent = true := by
  cases m <;> first | exact .inl rfl | exact .inr rfl | cases allowed

theorem effectiveCons (m : Mode) (rest : List Mode) :
    effective? ⟨m :: rest⟩ = if m.isTransparent then effective? ⟨rest⟩ else some m := by
  cases solid : m.isTransparent <;> simp [effective?, solid]

theorem outsideWorld {s : ModeStack} (lawful : s.Lawful) :
    (s.effective? = some .context → .frame ∉ s.blocks ∧ .world ∉ s.blocks) ∧
      (s.effective? = some .frame → .world ∉ s.blocks) := by
  obtain ⟨blocks⟩ := s
  induction blocks with
  | nil => exact ⟨fun _ => ⟨nofun, nofun⟩, fun _ => nofun⟩
  | cons m rest ih =>
    obtain ⟨inContext, inFrame⟩ := ih (lawfulPop lawful)
    rw [effectiveCons]
    cases solid : m.isTransparent with
    | true =>
      have frame : Mode.frame ≠ m := by
        rintro rfl
        cases solid
      have world : Mode.world ≠ m := by
        rintro rfl
        cases solid
      simp only [if_true, List.mem_cons, frame, world, false_or]
      exact ⟨inContext, inFrame⟩
    | false =>
      simp only [Bool.false_eq_true, if_false, Option.some.injEq]
      refine ⟨?_, ?_⟩
      · rintro rfl
        obtain closed | ⟨inner, eq, only⟩ := lawful.grounded
        · cases closed
        · cases inner with
          | nil =>
            cases eq
            exact ⟨by decide, by decide⟩
          | cons n inner =>
            cases eq
            exact absurd (List.mem_cons_self ..) only
      · rintro rfl
        obtain ⟨e, effective, allowed⟩ := lawful.permitted [] .frame rest rfl (by decide) rfl
        have none := (inContext (frameAround allowed ▸ effective)).2
        simpa using none

theorem frameAlone {rest : List Mode} (lawful : Lawful ⟨.frame :: rest⟩) : .frame ∉ rest := by
  obtain ⟨e, effective, allowed⟩ := lawful.permitted [] .frame rest rfl (by decide) rfl
  exact ((outsideWorld (lawfulPop lawful)).1 (frameAround allowed ▸ effective)).1

theorem worldAlone {rest : List Mode} (lawful : Lawful ⟨.world :: rest⟩) : .world ∉ rest := by
  obtain ⟨e, effective, allowed⟩ := lawful.permitted [] .world rest rfl (by decide) rfl
  obtain ⟨inContext, inFrame⟩ := outsideWorld (lawfulPop lawful)
  obtain rfl | rfl := worldAround allowed
  · exact (inContext effective).2
  · exact inFrame effective

theorem onceOpen {m : Mode} (alone : ∀ {rest : List Mode}, Lawful ⟨m :: rest⟩ → m ∉ rest)
    {s : ModeStack} (lawful : s.Lawful) : s.blocks.count m ≤ 1 := by
  obtain ⟨blocks⟩ := s
  induction blocks with
  | nil => exact Nat.zero_le 1
  | cons n rest ih =>
    by_cases same : n = m
    · subst same
      simp [List.count_eq_zero.mpr (alone lawful)]
    · simpa [List.count_cons, same] using ih (lawfulPop lawful)

/-- Neither a frame nor the world is open twice, the world stands in the context or in a frame, and right
inside a motion are only blocks that are transparent. -/
structure Ordered (s : ModeStack) : Prop where
  frames : s.blocks.count .frame ≤ 1
  worlds : s.blocks.count .world ≤ 1
  world : ∀ inner outer, s.blocks = inner ++ .world :: outer →
    effective? ⟨outer⟩ = some .context ∨ effective? ⟨outer⟩ = some .frame
  motion : ∀ inner m outer, s.blocks = inner ++ m :: outer → effective? ⟨outer⟩ = some .motion →
    m = .resource ∨ m = .archive

theorem lawfulOrdered {s : ModeStack} (lawful : s.Lawful) : s.Ordered where
  frames := onceOpen frameAlone lawful
  worlds := onceOpen worldAlone lawful
  world inner outer split := by
    obtain ⟨e, effective, allowed⟩ := lawful.permitted inner .world outer split (by decide) rfl
    rw [effective]
    exact (worldAround allowed).imp (congrArg some) (congrArg some)
  motion inner m outer split effective := by
    have root : m ≠ .context := by
      rintro rfl
      have closed := groundedBottom lawful.grounded split
      rw [closed] at effective
      cases effective
    cases solid : m.isTransparent with
    | true => cases m <;> first | exact .inl rfl | exact .inr rfl | cases solid
    | false =>
      obtain ⟨e, same, allowed⟩ := lawful.permitted inner m outer split root solid
      rw [effective] at same
      cases same
      obtain context | transparent := motionHolds allowed
      · exact absurd context root
      · exact absurd (solid.symm.trans transparent) (by decide)

/-! What is accepted. -/

theorem pushLawful {s : ModeStack} (lawful : s.Lawful) (m : Mode) :
    s.mayOpen m = true ↔ Lawful ⟨m :: s.blocks⟩ := by
  refine ⟨lawfulPush lawful, fun after => ?_⟩
  unfold mayOpen
  by_cases root : m = .context
  · subst root
    have closed : s.blocks = [] := groundedBottom after.grounded (List.nil_append _).symm
    simp [effective?, closed]
  · have isOpen : s.blocks ≠ [] := by
      intro closed
      obtain none | ⟨inner, eq, -⟩ := after.grounded
      · cases none
      · rw [closed] at eq
        cases inner with
        | nil => exact root (List.cons.inj eq).1
        | cons n inner => cases inner <;> cases eq
    cases effective : s.effective? with
    | none => exact absurd effective (groundedEffective lawful.grounded isOpen)
    | some e =>
      cases solid : m.isTransparent with
      | true => simpa using root
      | false =>
        obtain ⟨e', same, allowed⟩ := after.permitted [] m s.blocks rfl root solid
        cases effective.symm.trans same
        simp [root, allowed]

theorem pushIsOk (s : ModeStack) (m : Mode) : (s.push m).isOk = s.mayOpen m := by
  unfold push
  cases s.mayOpen m <;> rfl

theorem popIsOk (s : ModeStack) (m : Mode) : (s.pop m).isOk = true ↔ s.top? = some m := by
  obtain ⟨blocks⟩ := s
  cases blocks with
  | nil => simp [pop, top?, Except.isOk, Except.toBool]
  | cons n rest => by_cases same : n = m <;> simp [pop, top?, same, Except.isOk, Except.toBool]

theorem afterPush (s : ModeStack) (m : Mode) :
    s.after (.push m) = if (s.push m).isOk then ⟨m :: s.blocks⟩ else s := by
  by_cases may : s.mayOpen m = true <;> simp [after, answer, push, may, Except.isOk, Except.toBool]

theorem afterPop (s : ModeStack) (m : Mode) :
    s.after (.pop m) = if (s.pop m).isOk then ⟨s.blocks.tail⟩ else s := by
  obtain ⟨blocks⟩ := s
  cases blocks with
  | nil => rfl
  | cons n rest =>
    by_cases same : n = m <;> simp [after, answer, pop, same, Except.isOk, Except.toBool]

theorem tornDown (s : ModeStack) :
    s.teardown.2.map Problem.severity = if 1 < s.depth then some .warning else none := by
  unfold teardown leftOpen modes depth
  rw [← List.length_reverse]
  cases s.blocks.reverse with
  | nil => rfl
  | cons root inner => cases inner <;> rfl

/-! Requests against the blocks that they open and close. -/

theorem allowsOpening {s : ModeStack} {k : RequestKind} {m : Mode}
    (opened : Mode.openedBy k = some m) : s.allows k = s.mayOpen m := by
  rw [Bool.eq_iff_iff]
  refine ⟨fun allowed => allowedOpen allowed opened, fun may => ?_⟩
  unfold mayOpen at may
  unfold allows
  cases effective : s.effective? with
  | none =>
    rw [effective] at may
    have root : m = .context := by simpa using may
    simp [openedContext (root ▸ opened)]
  | some e =>
    rw [effective] at may
    obtain ⟨inner, allowed⟩ := Bool.and_eq_true_iff.mp may
    have solid : e.isTransparent = false := by simpa using List.find?_some effective
    have stands : m.group.allows e = true := by
      obtain transparent | allowed := Bool.or_eq_true_iff.mp allowed
      · cases m <;> simp_all [Mode.group, Mode.isTransparent, RequestGroup.allows]
      · exact allowed
    simp [openedInner opened (by simpa using inner), openedNotEnd opened, openedNotClosed opened,
      openedGroup opened, stands]

theorem allowsClosing {s : ModeStack} (lawful : s.Lawful) {k : RequestKind} {m : Mode}
    (closed : Mode.closedBy k = some m) (inner : k ≠ .endContext) :
    s.allows k = true ↔ s.top? = some m := by
  constructor
  · intro allowed
    obtain ⟨rest, top⟩ := allowedClose allowed closed fun same => inner (closedContext (same ▸ closed))
    simp [top?, top]
  · intro top
    have isOpen : s.blocks ≠ [] := by
      rintro none
      simp [top?, none] at top
    unfold allows
    split
    · exact absurd ‹_› (groundedEffective lawful.grounded isOpen)
    · simp [closedInner closed, inner, closed, top]

/-- Whatever is called on a new stack, accepted or refused, the blocks stand in each other as the groups of
requests allow. A push is accepted exactly if they still do after it, a pop exactly for the innermost block;
what is refused changes nothing, and a teardown empties the stack and warns exactly if more than the context
is open. A request that opens or closes a block is allowed exactly where its push or its pop is accepted, but
for the end of the context. -/
theorem stackStaysLawful (calls : List Call) :
    let s := ofCalls calls
    s.Lawful ∧ s.Ordered ∧
    (∀ m, ((s.push m).isOk = true ↔ Lawful ⟨m :: s.blocks⟩) ∧
      s.after (.push m) = if (s.push m).isOk then ⟨m :: s.blocks⟩ else s) ∧
    (∀ m, ((s.pop m).isOk = true ↔ s.top? = some m) ∧
      s.after (.pop m) = if (s.pop m).isOk then ⟨s.blocks.tail⟩ else s) ∧
    s.after .teardown = empty ∧
    s.teardown.2.map Problem.severity = (if 1 < s.depth then some .warning else none) ∧
    (∀ k m, Mode.openedBy k = some m → s.allows k = (s.push m).isOk) ∧
    (∀ k m, Mode.closedBy k = some m → k ≠ .endContext → s.allows k = (s.pop m).isOk) := by
  intro s
  have lawful : s.Lawful := callsLawful calls
  refine ⟨lawful, lawfulOrdered lawful, fun m => ⟨?_, afterPush s m⟩,
    fun m => ⟨popIsOk s m, afterPop s m⟩, rfl, tornDown s, ?_, ?_⟩
  · rw [pushIsOk]
    exact pushLawful lawful m
  · intro k m opened
    rw [pushIsOk]
    exact allowsOpening opened
  · intro k m closed inner
    rw [Bool.eq_iff_iff, popIsOk]
    exact allowsClosing lawful closed inner

end ModeStack
end SceneStream
