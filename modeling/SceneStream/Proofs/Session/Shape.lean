import SceneStream.Mode.Stack

/-! The shape of a session: its open blocks, how deep the two stacks of its graphics state are, and
whether it writes down an object. What a request can do to it is one of a few moves. -/
namespace SceneStream

def Mode.keepsAttributes : Mode → Bool
  | frame | world | attributes | solid => true
  | _ => false

def Mode.keepsTransform : Mode → Bool
  | transform => true
  | _ => false

structure Shape where
  blocks : List Mode
  frames : Nat
  transforms : Nat
  recordsObject : Bool
  deriving DecidableEq, Repr

namespace Shape

def isOpen (x : Shape) : Bool := !x.blocks.isEmpty

/-- Blocks around the object that is being written down, the outermost first; all of them if none is.
-/
def outside (x : Shape) : List Mode :=
  if x.recordsObject then x.blocks.reverse.takeWhile (· != .object) else x.blocks.reverse

/-- Each stack holds what the blocks outside have kept, and no object is open but the one that is being
written down. -/
structure InStep (x : Shape) : Prop where
  frames : x.frames = x.outside.countP Mode.keepsAttributes
  transforms : x.transforms = x.outside.count .transform
  objects : x.blocks.count .object = x.recordsObject.toNat

instance (x : Shape) : Decidable x.InStep :=
  decidable_of_iff (x.frames = x.outside.countP Mode.keepsAttributes ∧
    x.transforms = x.outside.count .transform ∧ x.blocks.count .object = x.recordsObject.toNat)
    ⟨fun ⟨frames, transforms, objects⟩ => ⟨frames, transforms, objects⟩,
      fun ⟨frames, transforms, objects⟩ => ⟨frames, transforms, objects⟩⟩

/-- Objects that are open without being written down. -/
def strays (x : Shape) : Nat := x.blocks.count .object - x.recordsObject.toNat

def Grounded (blocks : List Mode) : Prop :=
  blocks = [] ∨ ∃ inner, blocks = inner ++ [.context] ∧ .context ∉ inner

structure Sound (x : Shape) : Prop where
  recorded : x.recordsObject → .object ∈ x.blocks
  grounded : Grounded x.blocks
  inStep : x.isOpen → x.strays = 0 → x.InStep

theorem inStepIff {x : Shape} (sound : x.Sound) (isOpen : x.isOpen) : x.InStep ↔ x.strays = 0 := by
  constructor
  · intro h
    simp [strays, h.objects]
  · exact sound.inStep isOpen

/-- What one request can do. A move is marked when it opens an object inside another that is being
written down. -/
inductive Move (x : Shape) : Bool → Shape → Prop where
  | stay : Move x false x
  | openContext (closed : .context ∉ x.blocks) (plain : x.recordsObject = false) :
      Move x false ⟨.context :: x.blocks, 0, 0, x.recordsObject⟩
  | enter (m : Mode) (isOpen : x.blocks ≠ []) (plain : x.recordsObject = false)
      (inner : m ≠ .context) (other : m ≠ .object) :
      Move x false ⟨m :: x.blocks, x.frames + m.keepsAttributes.toNat,
        x.transforms + m.keepsTransform.toNat, x.recordsObject⟩
  | leave {m : Mode} {rest : List Mode} (top : x.blocks = m :: rest) (plain : x.recordsObject = false)
      (inner : m ≠ .context) (other : m ≠ .object) :
      Move x false ⟨rest, x.frames - m.keepsAttributes.toNat,
        x.transforms - m.keepsTransform.toNat, x.recordsObject⟩
  | closeContext (plain : x.recordsObject = false) : Move x false { x with blocks := [] }
  | define (isOpen : x.blocks ≠ []) (plain : x.recordsObject = false) :
      Move x false ⟨.object :: x.blocks, x.frames, x.transforms, true⟩
  | push (m : Mode) (records : x.recordsObject = true) (inner : .object ∈ x.blocks → m ≠ .context) :
      Move x (m == .object) { x with blocks := m :: x.blocks }
  | pop {m : Mode} {rest : List Mode} (top : x.blocks = m :: rest) (records : x.recordsObject = true)
      (other : m ≠ .object) : Move x false { x with blocks := rest }
  | finish {rest : List Mode} (top : x.blocks = .object :: rest) (records : x.recordsObject = true) :
      Move x false ⟨rest, x.frames, x.transforms, false⟩

theorem groundedPush {blocks : List Mode} (grounded : Grounded blocks) (isOpen : blocks ≠ [])
    {m : Mode} (inner : m ≠ .context) : Grounded (m :: blocks) := by
  obtain closed | ⟨below, eq, only⟩ := grounded
  · exact absurd closed isOpen
  · exact .inr ⟨m :: below, by simp [eq], by simpa [only] using inner.symm⟩

theorem groundedPop {m : Mode} {rest : List Mode} (grounded : Grounded (m :: rest)) :
    Grounded rest := by
  obtain closed | ⟨below, eq, only⟩ := grounded
  · cases closed
  · cases below with
    | nil =>
      cases eq
      exact .inl rfl
    | cons n below =>
      cases eq
      exact .inr ⟨below, rfl, fun member => only (by simp [member])⟩

theorem groundedClosed {blocks : List Mode} (grounded : Grounded blocks) (closed : .context ∉ blocks) :
    blocks = [] := by
  obtain none | ⟨below, eq, _⟩ := grounded
  · exact none
  · exact absurd (by simp [eq]) closed

theorem plainOutside {x : Shape} (plain : x.recordsObject = false) : x.outside = x.blocks.reverse := by
  simp [outside, plain]

theorem outsidePush {blocks : List Mode} (object : .object ∈ blocks) (m : Mode) :
    (m :: blocks).reverse.takeWhile (· != .object) = blocks.reverse.takeWhile (· != .object) := by
  rw [List.reverse_cons, List.takeWhile_append]
  split
  · rename_i whole
    have kept := (List.takeWhile_prefix (· != Mode.object)).eq_of_length whole
    have all : (blocks.reverse.takeWhile (· != .object)).all (· != .object) = true :=
      List.all_takeWhile
    rw [kept, List.all_reverse, List.all_eq_true] at all
    simpa using all .object object
  · rfl

theorem outsideObject {rest : List Mode} (only : .object ∉ rest) :
    (Mode.object :: rest).reverse.takeWhile (· != .object) = rest.reverse := by
  rw [List.reverse_cons, List.takeWhile_append_of_pos]
  · simp
  · intro n member
    have different : n ≠ .object := fun same => only (by simpa [same] using member)
    simpa using different

theorem keptInStep {x : Shape} (h : x.InStep) (plain : x.recordsObject = false) {m : Mode}
    {rest : List Mode} (top : x.blocks = m :: rest) :
    (m.keepsAttributes = true → x.frames ≠ 0) ∧ (m.keepsTransform = true → x.transforms ≠ 0) := by
  obtain ⟨frames, transforms, -⟩ := h
  rw [plainOutside plain, top] at frames transforms
  refine ⟨fun keeps => ?_, fun keeps => ?_⟩
  · simp [frames, keeps]
  · have same : m = .transform := by cases m <;> first | rfl | cases keeps
    simp [transforms, same]

theorem enterInStep {x : Shape} (h : x.InStep) (plain : x.recordsObject = false) {m : Mode}
    (other : m ≠ .object) : InStep ⟨m :: x.blocks, x.frames + m.keepsAttributes.toNat,
      x.transforms + m.keepsTransform.toNat, x.recordsObject⟩ := by
  obtain ⟨frames, transforms, objects⟩ := h
  rw [plainOutside plain] at frames transforms
  constructor
  · cases m <;> simp [outside, plain, frames, Mode.keepsAttributes]
  · cases m <;> simp [outside, plain, transforms, Mode.keepsTransform]
  · simpa [plain, List.count_cons, other] using objects

theorem leaveInStep {x : Shape} (h : x.InStep) (plain : x.recordsObject = false) {m : Mode}
    {rest : List Mode} (top : x.blocks = m :: rest) (other : m ≠ .object) :
    InStep ⟨rest, x.frames - m.keepsAttributes.toNat, x.transforms - m.keepsTransform.toNat,
      x.recordsObject⟩ := by
  obtain ⟨frames, transforms, objects⟩ := h
  rw [plainOutside plain, top] at frames transforms
  rw [top, List.count_cons_of_ne other] at objects
  constructor
  · cases m <;> simp [outside, plain, frames, Mode.keepsAttributes]
  · cases m <;> simp [outside, plain, transforms, Mode.keepsTransform]
  · exact objects

theorem defineInStep {x : Shape} (h : x.InStep) (plain : x.recordsObject = false) :
    InStep ⟨.object :: x.blocks, x.frames, x.transforms, true⟩ := by
  obtain ⟨frames, transforms, objects⟩ := h
  rw [plainOutside plain] at frames transforms
  rw [plain] at objects
  have only := List.count_eq_zero.mp objects
  constructor
  · simp only [outside, if_true, outsideObject only, frames]
  · simp only [outside, if_true, outsideObject only, transforms]
  · simp [objects]

theorem pushInStep {x : Shape} (h : x.InStep) (records : x.recordsObject = true)
    (object : .object ∈ x.blocks) {m : Mode} (other : m ≠ .object) :
    InStep { x with blocks := m :: x.blocks } := by
  obtain ⟨frames, transforms, objects⟩ := h
  simp only [outside, records, if_true] at frames transforms
  constructor
  · simp only [outside, records, if_true, outsidePush object, frames]
  · simp only [outside, records, if_true, outsidePush object, transforms]
  · simpa [List.count_cons, other] using objects

theorem popInStep {x : Shape} (h : x.InStep) (records : x.recordsObject = true) {m : Mode}
    {rest : List Mode} (top : x.blocks = m :: rest) (object : .object ∈ rest) (other : m ≠ .object) :
    InStep { x with blocks := rest } := by
  obtain ⟨frames, transforms, objects⟩ := h
  simp only [outside, records, if_true, top, outsidePush object] at frames transforms
  rw [top, List.count_cons_of_ne other] at objects
  exact ⟨by simpa [outside, records] using frames, by simpa [outside, records] using transforms,
    objects⟩

theorem finishInStep {x : Shape} (h : x.InStep) (records : x.recordsObject = true)
    {rest : List Mode} (top : x.blocks = .object :: rest) :
    InStep ⟨rest, x.frames, x.transforms, false⟩ := by
  obtain ⟨frames, transforms, objects⟩ := h
  rw [top, records] at objects
  have none : rest.count .object = 0 := by simpa using objects
  have only := List.count_eq_zero.mp none
  simp only [outside, records, if_true, top, outsideObject only] at frames transforms
  exact ⟨by simpa [outside] using frames, by simpa [outside] using transforms, none⟩

theorem moveStrays {x y : Shape} {nests : Bool} (move : Move x nests y) (sound : x.Sound)
    (isOpen : y.isOpen) : y.strays = x.strays + nests.toNat := by
  cases move with
  | stay => rfl
  | openContext closed plain => simp [strays, groundedClosed sound.grounded closed]
  | enter m _ plain _ other => simp [strays, plain, other]
  | leave top plain _ other => simp [strays, plain, top, other]
  | closeContext => cases isOpen
  | define _ plain => simp [strays, plain]
  | push m records =>
    have some := List.count_pos_iff.mpr (sound.recorded records)
    simp only [strays, records, List.count_cons, Bool.toNat_true]
    cases m == Mode.object with
    | true => simp; omega
    | false => simp
  | pop top records other => simp [strays, records, top, other]
  | finish top records => simp [strays, records, top]

theorem moveSound {x y : Shape} {nests : Bool} (move : Move x nests y) (sound : x.Sound) :
    y.Sound := by
  have strays := moveStrays move sound
  obtain ⟨recorded, grounded, inStep⟩ := sound
  have before (wasOpen : x.blocks ≠ []) (still : y.isOpen) (none : y.strays = 0) : x.InStep := by
    have both := strays still
    exact inStep (by simpa [Shape.isOpen] using wasOpen) (by omega)
  cases move with
  | stay => exact ⟨recorded, grounded, inStep⟩
  | openContext closed plain =>
    rw [groundedClosed grounded closed, plain]
    exact ⟨nofun, .inr ⟨[], rfl, nofun⟩, fun _ _ => by decide⟩
  | enter m isOpen plain inner other =>
    refine ⟨fun records => ?_, groundedPush grounded isOpen inner, fun still none => ?_⟩
    · exact absurd records (by simp [plain])
    exact enterInStep (before isOpen still none) plain other
  | leave top plain inner other =>
    refine ⟨fun records => ?_, groundedPop (top ▸ grounded), fun still none => ?_⟩
    · exact absurd records (by simp [plain])
    exact leaveInStep (before (by simp [top]) still none) plain top other
  | closeContext plain => exact ⟨fun records => absurd records (by simp [plain]), .inl rfl, nofun⟩
  | define isOpen plain =>
    refine ⟨fun _ => List.mem_cons_self .., groundedPush grounded isOpen (by decide), ?_⟩
    exact fun still none => defineInStep (before isOpen still none) plain
  | push m records inner =>
    have object := recorded records
    refine ⟨fun _ => List.mem_cons_of_mem _ object,
      groundedPush grounded (List.ne_nil_of_mem object) (inner object), fun still none => ?_⟩
    have both := strays still
    rw [none] at both
    have other : m ≠ .object := by
      intro same
      simp [same] at both
    exact pushInStep (before (List.ne_nil_of_mem object) still none) records object other
  | pop top records other =>
    rename_i m rest
    have object : .object ∈ rest := by
      have member := recorded records
      rw [top] at member
      simpa [other.symm] using member
    refine ⟨fun _ => object, groundedPop (top ▸ grounded), fun still none => ?_⟩
    exact popInStep (before (by simp [top]) still none) records top object other
  | finish top records =>
    refine ⟨nofun, groundedPop (top ▸ grounded), fun still none => ?_⟩
    exact finishInStep (before (by simp [top]) still none) records top

theorem moveOutside {x y : Shape} {nests : Bool} (move : Move x nests y) (sound : x.Sound)
    (inStep : x.InStep) (either : x.recordsObject = true ∨ y.recordsObject = true) :
    y.outside = x.outside := by
  have plainNever (plain : x.recordsObject = false) (same : y.recordsObject = x.recordsObject) :
      y.outside = x.outside := by simp [same, plain] at either
  cases move with
  | stay => rfl
  | openContext _ plain => exact plainNever plain rfl
  | enter _ _ plain => exact plainNever plain rfl
  | leave _ plain => exact plainNever plain rfl
  | closeContext plain => exact plainNever plain rfl
  | define _ plain =>
    have objects := inStep.objects
    rw [plain] at objects
    simp only [outside, if_true, outsideObject (List.count_eq_zero.mp objects), plain]
    rfl
  | push m records =>
    simp only [outside, records, if_true, outsidePush (sound.recorded records)]
  | pop top records other =>
    have object := sound.recorded records
    rw [top] at object
    have below := (List.mem_cons.mp object).resolve_left other.symm
    simp only [outside, records, if_true, top, outsidePush below]
  | finish top records =>
    have objects := inStep.objects
    rw [top, records] at objects
    have only := List.count_eq_zero.mp (by simpa using objects : _ = 0)
    simp only [outside, records, if_true, top, outsideObject only]
    rfl

end Shape
end SceneStream
