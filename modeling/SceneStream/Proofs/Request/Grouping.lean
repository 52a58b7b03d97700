import SceneStream.Proofs.Work
import SceneStream.Request.Args

/-! Numbers read one by one. How they are packed in arrays is nothing that a reader of single numbers can tell: what
it finds are the numbers still left, one after the other, until none is. -/
namespace SceneStream

inductive Stored where
  | integer (n : Int32)
  | float (x : Single)
  deriving DecidableEq

namespace Stored

def single : Stored → Single
  | integer n => .ofInt n.toInt
  | float x => x

def integer? : Stored → Except String Int32
  | integer n => .ok n
  | float x => match x.integer? with
    | some n => if Args.fits n then .ok (Int32.ofInt n) else .error x.text
    | none => .error x.text

end Stored

/-- Numbers one by one; strings are none. -/
def Values.stored : Values → List Stored
  | integers l => l.map .integer
  | floats l => l.map .float
  | strings _ => []

namespace Parameter

structure Numeric (p : Parameter) : Prop where
  numbers : p.basic ≠ .string
  filled : 0 < p.length
  lone : p.isArray = false → p.length = 1

instance (p : Parameter) : Decidable p.Numeric :=
  decidable_of_iff (p.basic ≠ .string ∧ 0 < p.length ∧ (p.isArray = false → p.length = 1))
    ⟨fun ⟨numbers, filled, lone⟩ => ⟨numbers, filled, lone⟩, fun numeric => ⟨numeric.numbers, numeric.filled, numeric.lone⟩⟩

theorem numericStored {p : Parameter} (numeric : p.Numeric) : p.values.stored.length = p.length := by
  obtain ⟨numbers, -, -⟩ := numeric
  cases values : p.values with
  | strings l => exact absurd (congrArg Values.basic values) numbers
  | integers l | floats l =>
    rw [length, values]
    exact List.length_map _

end Parameter

namespace Args

/-- All numbers, with no regard to how they are packed. -/
def stored (params : List Parameter) : List Stored := params.flatMap fun p => p.values.stored

def left (a : Args) : List Stored := (stored a.params).drop a.offset

def next (a : Args) : Args :=
  match a.peek with
  | some p => a.advance p
  | none => a

structure Sound (a : Args) : Prop where
  numeric : ∀ p ∈ a.params, p.Numeric
  place : ∀ p ∈ a.peek, a.offset < p.length
  origin : a.peek = none → a.offset = 0

theorem soundStart {params : List Parameter} (numeric : ∀ p ∈ params, p.Numeric) (kind : RequestKind) :
    Sound ⟨kind, params, 0⟩ :=
  ⟨numeric, fun p mem => (numeric p (List.mem_of_head? mem)).filled, fun _ => rfl⟩

section Sound
variable {a : Args}

theorem leftNone (none : a.peek = none) : left a = [] := by
  rw [left, List.head?_eq_none_iff.mp none]
  exact List.drop_nil

theorem leftSome (sound : Sound a) {p : Parameter} (first : a.peek = some p) :
    ∃ x, p.values.stored[a.offset]? = some x ∧ left a = x :: left (a.advance p) := by
  obtain ⟨kind, params, offset⟩ := a
  obtain ⟨rest, rfl⟩ : ∃ rest, params = p :: rest := List.head?_eq_some_iff.mp first
  have length := Parameter.numericStored (sound.numeric p (List.mem_cons_self ..))
  have inside : offset < p.values.stored.length := length ▸ sound.place p rfl
  refine ⟨p.values.stored[offset], List.getElem?_eq_getElem inside, ?_⟩
  have whole : left ⟨kind, p :: rest, offset⟩ =
      p.values.stored[offset] :: (p.values.stored.drop (offset + 1) ++ stored rest) := by
    rw [left, stored, List.flatMap_cons, List.drop_append_of_le_length (Nat.le_of_lt inside), List.drop_eq_getElem_cons inside,
      List.cons_append]
    rfl
  rw [whole, advance]
  refine congrArg _ ?_
  split
  · rename_i last
    have nothing : p.values.stored.drop (offset + 1) = [] := List.drop_eq_nil_of_le (Nat.le_trans (Nat.le_of_eq length) last)
    rw [nothing, List.nil_append]
    rfl
  · exact (List.drop_append_of_le_length inside).symm

theorem soundNext (sound : Sound a) : Sound a.next := by
  cases first : a.peek with
  | none =>
    rw [next, first]
    exact sound
  | some p =>
    rw [next, first]
    simp only [advance]
    split
    · exact soundStart (fun p mem => sound.numeric p (List.mem_of_mem_tail mem)) a.kind
    · rename_i more
      refine ⟨sound.numeric, fun q mem => ?_, fun none => ?_⟩
      · obtain rfl : p = q := Option.some.inj (first.symm.trans mem)
        exact Nat.not_le.mp more
      · cases first.symm.trans none

theorem leftNext (sound : Sound a) : left a.next = (left a).tail := by
  cases first : a.peek with
  | none => rw [next, first, leftNone first, List.tail_nil]
  | some p =>
    obtain ⟨x, -, split⟩ := leftSome sound first
    rw [next, first, split, List.tail_cons]

theorem nextKind (a : Args) : a.next.kind = a.kind := by
  unfold next advance
  split
  · split <;> rfl
  · rfl

theorem doneLeft (sound : Sound a) : a.isDone = (left a).isEmpty := by
  cases first : a.peek with
  | none =>
    rw [leftNone first, isDone, List.head?_eq_none_iff.mp first]
    rfl
  | some p =>
    obtain ⟨x, -, split⟩ := leftSome sound first
    obtain ⟨rest, params⟩ := List.head?_eq_some_iff.mp first
    rw [split, isDone, params]
    rfl

theorem floatRun (sound : Sound a) :
    float.run a = match left a with
      | [] => (.error (a.missing "float"), a)
      | x :: _ => (.ok x.single, a.next) := by
  cases first : a.peek with
  | none =>
    rw [leftNone first]
    simp only [float, Work.runBind, Work.runGet, first]
    rfl
  | some p =>
    obtain ⟨x, here, split⟩ := leftSome sound first
    rw [split]
    cases values : p.values with
    | strings l =>
      rw [values] at here
      cases here
    | integers l =>
      rw [values, Values.stored, List.getElem?_map, Option.map_eq_some_iff] at here
      obtain ⟨n, inside, rfl⟩ := here
      simp only [float, Work.runBind, Work.runGet, first, values, inside, next]
      rfl
    | floats l =>
      rw [values, Values.stored, List.getElem?_map, Option.map_eq_some_iff] at here
      obtain ⟨y, inside, rfl⟩ := here
      simp only [float, Work.runBind, Work.runGet, first, values, inside, next]
      rfl

theorem intRun (sound : Sound a) :
    int.run a = match left a with
      | [] => (.error (a.missing "integer"), a)
      | x :: _ => match x.integer? with
        | .ok n => (.ok n, a.next)
        | .error text => (.error (.of .consistency s!"{a.kind.name}: expected integer argument, found {text}"), a) := by
  cases first : a.peek with
  | none =>
    rw [leftNone first]
    simp only [int, Work.runBind, Work.runGet, first]
    rfl
  | some p =>
    obtain ⟨x, here, split⟩ := leftSome sound first
    rw [split]
    cases values : p.values with
    | strings l =>
      rw [values] at here
      cases here
    | integers l =>
      rw [values, Values.stored, List.getElem?_map, Option.map_eq_some_iff] at here
      obtain ⟨n, inside, rfl⟩ := here
      simp only [int, Work.runBind, Work.runGet, first, values, inside, next]
      rfl
    | floats l =>
      rw [values, Values.stored, List.getElem?_map, Option.map_eq_some_iff] at here
      obtain ⟨y, inside, rfl⟩ := here
      simp only [int, Work.runBind, Work.runGet, first, values, inside, next, Stored.integer?]
      cases y.integer? with
      | none => rfl
      | some n =>
        simp only
        cases fits n <;> rfl

end Sound

structure Alike {β : Type} (view : Stored → β) (a b : Args) : Prop where
  kind : a.kind = b.kind
  first : Sound a
  second : Sound b
  left : (left a).map view = (Args.left b).map view

/-- Reads the same where the same is left, and leaves the same. -/
def Blind {α β : Type} (view : Stored → β) (m : Read α) : Prop :=
  ∀ a b, Alike view a b → (m.run a).1 = (m.run b).1 ∧ Alike view (m.run a).2 (m.run b).2

section Blind
variable {α β γ : Type} {view : Stored → β} {a b : Args}

theorem alikeNext (alike : Alike view a b) : Alike view a.next b.next := by
  refine ⟨?_, soundNext alike.first, soundNext alike.second, ?_⟩
  · rw [nextKind, nextKind, alike.kind]
  · rw [leftNext alike.first, leftNext alike.second, List.map_tail, List.map_tail, alike.left]

theorem alikeMissing (alike : Alike view a b) (what : String) : a.missing what = b.missing what := by
  rw [missing, missing, alike.kind]

theorem missingText (a : Args) (what : String) : ∃ text, a.missing what = .of .missingData text := ⟨_, rfl⟩

theorem blindPure (x : α) : Blind view (pure x) := fun _ _ alike => ⟨rfl, alike⟩

theorem blindBind {m : Read α} {f : α → Read γ} (first : Blind view m) (later : ∀ x, Blind view (f x)) :
    Blind view (m >>= f) := by
  intro a b alike
  obtain ⟨same, after⟩ := first a b alike
  rw [Work.runBind, Work.runBind]
  cases read : m.run a with
  | mk x c =>
    cases other : m.run b with
    | mk y d =>
      rw [read, other] at same after
      cases same
      cases x with
      | ok x => exact later x c d after
      | error p => exact ⟨rfl, after⟩

theorem blindFloat (shows : ∀ x y, view x = view y → x.single = y.single) : Blind view float := by
  intro a b alike
  have same := alike.left
  rw [floatRun alike.first, floatRun alike.second]
  cases here : left a with
  | nil =>
    rw [here] at same
    rw [List.map_eq_nil_iff.mp same.symm]
    exact ⟨congrArg Except.error (alikeMissing alike _), alike⟩
  | cons x l =>
    rw [here] at same
    obtain ⟨y, k, there, shown, -⟩ := List.map_eq_cons_iff.mp same.symm
    rw [there]
    exact ⟨congrArg Except.ok (shows x y shown.symm), alikeNext alike⟩

theorem blindInt (shows : ∀ x y, view x = view y → x = y) : Blind view int := by
  intro a b alike
  have same := alike.left
  rw [intRun alike.first, intRun alike.second]
  cases here : left a with
  | nil =>
    rw [here] at same
    rw [List.map_eq_nil_iff.mp same.symm]
    exact ⟨congrArg Except.error (alikeMissing alike _), alike⟩
  | cons x l =>
    rw [here] at same
    obtain ⟨y, k, there, shown, -⟩ := List.map_eq_cons_iff.mp same.symm
    obtain rfl := shows x y shown.symm
    rw [there]
    dsimp only
    cases x.integer? with
    | ok n => exact ⟨rfl, alikeNext alike⟩
    | error text =>
      rw [alike.kind]
      exact ⟨rfl, alike⟩

theorem blindFloatList (shows : ∀ x y, view x = view y → x.single = y.single) (n : Nat) :
    Blind view (floatList n) := by
  induction n with
  | zero => exact blindPure _
  | succ n ih => exact blindBind (blindFloat shows) fun _ => blindBind ih fun _ => blindPure _

theorem blindDone (alike : Alike view a b) : a.isDone = b.isDone := by
  have same := congrArg List.isEmpty alike.left
  rw [doneLeft alike.first, doneLeft alike.second]
  simpa only [List.isEmpty_map] using same

end Blind

inductive Call where
  | float | float2 | float3 | float4 | int
  | floats (n : Nat)
  deriving DecidableEq

namespace Call

abbrev Answer : Call → Type
  | float => Single
  | float2 => Single × Single
  | float3 => Single × Single × Single
  | float4 => Single × Single × Single × Single
  | int => Int32
  | floats _ => List Single

def read : (c : Call) → Read c.Answer
  | float => Args.float
  | float2 => Args.float2
  | float3 => Args.float3
  | float4 => Args.float4
  | int => Args.int
  | floats n => floatList n

end Call

/-- Goes on as it likes after each answer, also after a problem. -/
inductive Program (α : Type) where
  | done (x : α)
  | ask (c : Call) (next : Outcome c.Answer → Program α)
  | isDone (next : Bool → Program α)

namespace Program
variable {α : Type}

def run (a : Args) : Program α → α
  | done x => x
  | ask c next => (next (c.read.run a).1).run (c.read.run a).2
  | isDone next => (next a.isDone).run a

def Floats : Program α → Prop
  | done _ => True
  | ask c next => c ≠ .int ∧ ∀ x, (next x).Floats
  | isDone next => ∀ x, (next x).Floats

theorem runAlike {β : Type} {view : Stored → β} (program : Program α)
    (floats : ∀ x y, view x = view y → x.single = y.single)
    (integers : program.Floats ∨ ∀ x y, view x = view y → x = y) {a b : Args} (alike : Alike view a b) :
    program.run a = program.run b := by
  induction program generalizing a b with
  | done x => rfl
  | ask c next ih =>
    have blind : Blind view c.read := by
      have one := blindFloat floats
      have two : Blind view float2 := blindBind one fun _ => blindBind one fun _ => blindPure _
      have three : Blind view float3 := blindBind one fun _ => blindBind two fun _ => blindPure _
      cases c with
      | float => exact one
      | float2 => exact two
      | float3 => exact three
      | float4 => exact blindBind one fun _ => blindBind three fun _ => blindPure _
      | floats n => exact blindFloatList floats n
      | int => exact blindInt (integers.resolve_left fun none => none.1 rfl)
    obtain ⟨same, after⟩ := blind a b alike
    rw [run, run, same]
    exact ih _ (integers.imp_left fun none => none.2 _) after
  | isDone next ih =>
    rw [run, run, blindDone alike]
    exact ih _ (integers.imp_left fun none => none _) alike

end Program

theorem floatListRun (n : Nat) {a : Args} (sound : Sound a) :
    ∃ b, Sound b ∧ b.kind = a.kind ∧ left b = (left a).drop n ∧ (floatList n).run a =
      (if n ≤ (left a).length then .ok (((left a).take n).map Stored.single) else .error (a.missing "float"), b) := by
  induction n generalizing a with
  | zero => exact ⟨a, sound, rfl, rfl, rfl⟩
  | succ n ih =>
    simp only [floatList, Work.runBind, floatRun sound]
    cases here : left a with
    | nil => exact ⟨a, sound, rfl, by rw [here]; rfl, rfl⟩
    | cons x l =>
      obtain ⟨b, after, kind, rest, run⟩ := ih (soundNext sound)
      have tail : left a.next = l := by rw [leftNext sound, here, List.tail_cons]
      rw [tail] at rest run
      refine ⟨b, after, kind.trans (nextKind a), rest, ?_⟩
      simp only [run, List.length_cons, Nat.add_le_add_iff_right, missing, nextKind]
      by_cases enough : n ≤ l.length
      · simp only [if_pos enough]
        rfl
      · simp only [if_neg enough]

theorem valueCount {params : List Parameter} (numeric : ∀ p ∈ params, p.Numeric) (kind : RequestKind) (line : Nat) :
    Request.valueCount ⟨kind, line, params⟩ = (stored params).length := by
  rw [stored, List.length_flatMap, Request.valueCount]
  refine congrArg _ (List.map_congr_left fun p mem => ?_)
  rw [Parameter.numericStored (numeric p mem)]
  split
  · rfl
  · rename_i lone
    exact ((numeric p mem).lone (Bool.not_eq_true _ ▸ lone)).symm

/-- No program that reads floats can tell one packing of its numbers from another, and none that reads integers too
can tell them if the integers are the same; as many are counted, and once all are read there are none to read. -/
theorem groupingUnseen (kind : RequestKind) {params others : List Parameter} (numeric : ∀ p ∈ params, p.Numeric)
    (numbers : ∀ p ∈ others, p.Numeric)
    (same : (stored params).map Stored.single = (stored others).map Stored.single) :
    (∀ (α : Type) (program : Program α), program.Floats →
      program.run ⟨kind, params, 0⟩ = program.run ⟨kind, others, 0⟩) ∧
    (stored params = stored others → ∀ (α : Type) (program : Program α),
      program.run ⟨kind, params, 0⟩ = program.run ⟨kind, others, 0⟩) ∧
    (∀ line, Request.valueCount ⟨kind, line, params⟩ = Request.valueCount ⟨kind, line, others⟩) ∧
    ∀ a ∈ [(⟨kind, params, 0⟩ : Args), ⟨kind, others, 0⟩],
      (∀ n, ((floatList n).run a).2.isDone = decide ((stored params).length ≤ n)) ∧
      ∃ b, (floatList (stored params).length).run a = (.ok ((stored params).map Stored.single), b) ∧
        (∃ text, float.run b = (.error (.of .missingData text), b)) ∧
        ∃ text, int.run b = (.error (.of .missingData text), b) := by
  have count : (stored params).length = (stored others).length := by
    simpa only [List.length_map] using congrArg List.length same
  refine ⟨fun α program floats => ?_, fun equal α program => ?_, fun line => ?_, fun a mem => ?_⟩
  · have alike : Alike Stored.single ⟨kind, params, 0⟩ ⟨kind, others, 0⟩ :=
      ⟨rfl, soundStart numeric kind, soundStart numbers kind, same⟩
    exact program.runAlike (fun _ _ => id) (.inl floats) alike
  · have alike : Alike id ⟨kind, params, 0⟩ ⟨kind, others, 0⟩ :=
      ⟨rfl, soundStart numeric kind, soundStart numbers kind, congrArg (List.map id) equal⟩
    exact program.runAlike (fun _ _ => congrArg Stored.single) (.inr fun _ _ => id) alike
  · rw [valueCount numeric, valueCount numbers, count]
  · have start : Sound a ∧ a.kind = kind ∧ (left a).map Stored.single = (stored params).map Stored.single := by
      rcases List.mem_cons.mp mem with rfl | mem
      · exact ⟨soundStart numeric kind, rfl, rfl⟩
      · obtain rfl := List.mem_singleton.mp mem
        exact ⟨soundStart numbers kind, rfl, same.symm⟩
    obtain ⟨sound, rfl, shown⟩ := start
    have length : (left a).length = (stored params).length := by
      simpa only [List.length_map] using congrArg List.length shown
    refine ⟨fun n => ?_, ?_⟩
    · obtain ⟨b, after, -, rest, run⟩ := floatListRun n sound
      rw [run, doneLeft after, rest, ← length, Bool.eq_iff_iff, List.isEmpty_iff, List.drop_eq_nil_iff,
        decide_eq_true_iff]
    · obtain ⟨b, after, -, rest, run⟩ := floatListRun (stored params).length sound
      rw [← length, List.drop_length] at rest
      rw [if_pos (Nat.le_of_eq length.symm), ← length, List.take_length, shown] at run
      obtain ⟨text, floats⟩ := missingText b "float"
      obtain ⟨other, integers⟩ := missingText b "integer"
      refine ⟨b, length ▸ run, ⟨text, ?_⟩, ⟨other, ?_⟩⟩
      · rw [floatRun after, rest, ← floats]
      · rw [intRun after, rest, ← integers]

def pieces : List Parameter := [.of (.integers [0, 1]) true, .of (.floats [.ofInt 2]) false, .of (.integers [3]) true]

def packed : List Parameter := [.of (.floats [.ofInt 0, .ofInt 1, .ofInt 2, .ofInt 3]) true]

theorem piecesReadPacked :
    (∀ p ∈ pieces, p.Numeric) ∧ (∀ p ∈ packed, p.Numeric) ∧
    (stored pieces).map Stored.single = (stored packed).map Stored.single ∧
    ∀ (α : Type) (program : Program α), program.Floats →
      program.run ⟨.transform, pieces, 0⟩ = program.run ⟨.transform, packed, 0⟩ := by
  have first : ∀ p ∈ pieces, p.Numeric := by decide
  have second : ∀ p ∈ packed, p.Numeric := by decide
  have same : (stored pieces).map Stored.single = (stored packed).map Stored.single := by decide +kernel
  exact ⟨first, second, same, (groupingUnseen .transform first second same).1⟩

end Args
end SceneStream
