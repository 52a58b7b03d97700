import Mathlib.Data.List.Basic
import SceneStream.Proofs.Stream.Accounting

/-! Arrays from their pieces. The types change while an array grows, and yet it is in the end what its pieces give
when they are taken at once; strings among numbers cost the request. -/
namespace SceneStream

namespace Values

def ints : Values → List Int32
  | integers l => l
  | _ => []

def singles : Values → List Single
  | integers l => l.map fun n => .ofInt n.toInt
  | floats l => l
  | strings _ => []

def texts : Values → List String
  | strings l => l
  | _ => []

theorem reverseReverse (v : Values) : v.reverse.reverse = v := by
  cases v <;> simp [reverse]

def joined? (pieces : List Values) : Option Values :=
  if ∀ v ∈ pieces, v.basic = .integer then some (.integers (pieces.flatMap ints))
  else if ∀ v ∈ pieces, v.basic ≠ .string then some (.floats (pieces.flatMap singles))
  else if ∀ v ∈ pieces, v.basic = .string then some (.strings (pieces.flatMap texts))
  else none

section Joined
variable {pieces : List Values}

theorem joinedIntegers (integers : ∀ v ∈ pieces, v.basic = .integer) :
    joined? pieces = some (.integers (pieces.flatMap ints)) := if_pos integers

theorem joinedFloats (float : ∃ v ∈ pieces, v.basic = .float) (numbers : ∀ v ∈ pieces, v.basic ≠ .string) :
    joined? pieces = some (.floats (pieces.flatMap singles)) := by
  obtain ⟨v, mem, float⟩ := float
  have other : ¬ ∀ v ∈ pieces, v.basic = .integer := fun integers => by cases float.symm.trans (integers v mem)
  rw [joined?, if_neg other, if_pos numbers]

theorem joinedStrings (some : pieces ≠ []) (strings : ∀ v ∈ pieces, v.basic = .string) :
    joined? pieces = .some (.strings (pieces.flatMap texts)) := by
  obtain ⟨v, mem⟩ := List.exists_mem_of_ne_nil pieces some
  have other : ¬ ∀ v ∈ pieces, v.basic = .integer := fun integers => by
    cases (strings v mem).symm.trans (integers v mem)
  rw [joined?, if_neg other, if_neg fun numbers => numbers v mem (strings v mem), if_pos strings]

theorem joinedNone : joined? pieces = none ↔ (∃ v ∈ pieces, v.basic = .string) ∧ ∃ v ∈ pieces, v.basic ≠ .string := by
  constructor
  · intro none
    unfold joined? at none
    split at none
    · cases none
    · split at none
      · cases none
      · rename_i text
        split at none
        · cases none
        · rename_i number
          push Not at text number
          exact ⟨text, number⟩
  · rintro ⟨⟨v, mem, text⟩, w, inside, number⟩
    have mixed : ¬ ∀ v ∈ pieces, v.basic = .integer := fun integers => by cases text.symm.trans (integers v mem)
    rw [joined?, if_neg mixed, if_neg fun numbers => numbers v mem text, if_neg fun texts => number (texts w inside)]

theorem integersSingles (integers : ∀ v ∈ pieces, v.basic = .integer) :
    pieces.flatMap singles = (pieces.flatMap ints).map fun n => Single.ofInt n.toInt := by
  rw [List.map_flatMap]
  refine List.flatMap_congr fun v mem => ?_
  have integer := integers v mem
  cases v with
  | integers l => rfl
  | floats l | strings l => cases integer

inductive Shows (pieces : List Values) : Values → Prop where
  | integers (all : ∀ v ∈ pieces, v.basic = .integer) : Shows pieces (.integers (pieces.flatMap ints))
  | floats (float : ∃ v ∈ pieces, v.basic = .float) (numbers : ∀ v ∈ pieces, v.basic ≠ .string) :
      Shows pieces (.floats (pieces.flatMap singles))
  | strings (all : ∀ v ∈ pieces, v.basic = .string) : Shows pieces (.strings (pieces.flatMap texts))

theorem joinedShows {w : Values} (joined : joined? pieces = some w) : Shows pieces w := by
  unfold joined? at joined
  split at joined
  · rename_i all
    cases joined
    exact .integers all
  · rename_i other
    split at joined
    · rename_i numbers
      cases joined
      push Not at other
      obtain ⟨v, mem, other⟩ := other
      refine .floats ⟨v, mem, ?_⟩ numbers
      have number := numbers v mem
      cases kind : v.basic with
      | float => rfl
      | integer => exact absurd kind other
      | string => exact absurd kind number
    · split at joined
      · rename_i all
        cases joined
        exact .strings all
      · cases joined

theorem everyMore {P : Values → Prop} {v : Values} (all : ∀ w ∈ pieces, P w) (last : P v) :
    ∀ w ∈ pieces ++ [v], P w := List.forall_mem_append.mpr ⟨all, List.forall_mem_singleton.mpr last⟩

theorem mixedMore {v w : Values} (mem : w ∈ pieces) (mixed : v.basic = .string ∧ w.basic ≠ .string ∨
    v.basic ≠ .string ∧ w.basic = .string) : joined? (pieces ++ [v]) = none := by
  have first : w ∈ pieces ++ [v] := List.mem_append_left _ mem
  have last : v ∈ pieces ++ [v] := List.mem_append_right _ (List.mem_singleton_self v)
  rcases mixed with ⟨text, number⟩ | ⟨number, text⟩
  · exact joinedNone.mpr ⟨⟨v, last, text⟩, w, first, number⟩
  · exact joinedNone.mpr ⟨⟨w, first, text⟩, v, last, number⟩

open Stream.Collector (join?) in
theorem joinedStep (some : pieces ≠ []) {w : Values} (joined : joined? pieces = .some w) (v : Values) :
    joined? (pieces ++ [v]) = (join? v.reverse w.reverse).map reverse := by
  obtain ⟨u, mem⟩ := List.exists_mem_of_ne_nil pieces some
  have last : v ∈ pieces ++ [v] := List.mem_append_right _ (List.mem_singleton_self v)
  cases joinedShows joined with
  | integers all =>
    cases v with
    | integers l =>
      rw [joinedIntegers (everyMore all rfl)]
      simp [join?, reverse, ints]
    | floats l =>
      have numbers : ∀ w ∈ pieces, w.basic ≠ .string := fun w mem => by simp [all w mem]
      rw [joinedFloats ⟨_, last, rfl⟩ (everyMore numbers (by simp [basic]))]
      simp [join?, reverse, floats?, singles, integersSingles all]
    | strings l =>
      rw [mixedMore mem (.inl ⟨rfl, by simp [all u mem]⟩)]
      rfl
  | floats float numbers =>
    obtain ⟨x, inside, float⟩ := float
    cases v with
    | integers l =>
      rw [joinedFloats ⟨x, List.mem_append_left _ inside, float⟩ (everyMore numbers (by simp [basic]))]
      simp [join?, reverse, floats?, singles]
    | floats l =>
      rw [joinedFloats ⟨x, List.mem_append_left _ inside, float⟩ (everyMore numbers (by simp [basic]))]
      simp [join?, reverse, floats?, singles]
    | strings l =>
      rw [mixedMore mem (.inl ⟨rfl, numbers u mem⟩)]
      rfl
  | strings all =>
    cases v with
    | integers l | floats l =>
      rw [mixedMore mem (.inr ⟨by simp [basic], all u mem⟩)]
      rfl
    | strings l =>
      rw [joinedStrings (by simp) (everyMore all rfl)]
      simp [join?, reverse, texts]

theorem joinedOne (v : Values) : joined? [v] = some v := by
  cases v <;> simp [joined?, basic, ints, singles, texts]

theorem joinedMore (none : joined? pieces = none) (more : List Values) : joined? (pieces ++ more) = .none := by
  obtain ⟨⟨v, text, string⟩, w, number, other⟩ := joinedNone.mp none
  exact joinedNone.mpr ⟨⟨v, List.mem_append_left _ text, string⟩, w, List.mem_append_left _ number, other⟩

end Joined
end Values

namespace Stream

namespace Collector

def pushAll (c : Collector) (pieces : List Values) : Collector := pieces.foldl (fun c v => (c.push v).1) c

def refused (c : Collector) : List Values → List Problem
  | [] => []
  | v :: pieces => (c.push v).2.toList ++ (c.push v).1.refused pieces

def assembled? (pieces : List Values) : Option Parameter :=
  match pieces with
  | [] => some (.of (.floats []) true)
  | first :: _ => (Values.joined? pieces).map (⟨·, true, first.basic⟩)

theorem pushedJoined {c : Collector} {w : Values} {source : BasicType} {before : List Values} (some : before ≠ [])
    (content : c.content = .some (w.reverse, source)) (joined : Values.joined? before = .some w) (pieces : List Values) :
    match Values.joined? (before ++ pieces) with
    | .some v => (c.pushAll pieces).content = .some (v.reverse, source) ∧ c.refused pieces = []
    | .none => ∃ p ∈ c.refused pieces, p.kind = .badArray := by
  induction pieces generalizing c w before with
  | nil =>
    rw [List.append_nil, joined]
    exact ⟨content, rfl⟩
  | cons v pieces ih =>
    have step := Values.joinedStep some joined v
    have split : before ++ v :: pieces = before ++ [v] ++ pieces := by simp
    cases pushed : join? v.reverse w.reverse with
    | some u =>
      rw [pushed] at step
      have push : c.push v = ({ c with content := .some (u, source) }, none) := by
        simp only [push, content, pushed]
      have next : (c.push v).1.content = .some (u.reverse.reverse, source) := by rw [push, Values.reverseReverse]
      have rest := ih (List.append_ne_nil_of_right_ne_nil before (List.cons_ne_nil v [])) next step
      rw [← split] at rest
      rw [show c.pushAll (v :: pieces) = (c.push v).1.pushAll pieces from rfl, refused]
      rwa [show (c.push v).2 = none by rw [push]]
    | none =>
      rw [pushed] at step
      rw [split, Values.joinedMore step]
      have push : (c.push v).2 = .some (c.mixed w.reverse.basic v.basic) := by
        simp only [push, content, pushed]
      refine ⟨_, List.mem_append_left _ (by rw [push]; exact List.mem_singleton_self _), rfl⟩

theorem pushedAssembled (line : Nat) (pieces : List Values) :
    match assembled? pieces with
    | some p => ((start line).pushAll pieces).finish = p ∧ (start line).refused pieces = []
    | none => ∃ p ∈ (start line).refused pieces, p.kind = .badArray := by
  cases pieces with
  | nil => exact ⟨rfl, rfl⟩
  | cons v pieces =>
    have content : ((start line).push v).1.content = some (v.reverse, v.basic) := rfl
    have rest := pushedJoined (List.cons_ne_nil v []) content (Values.joinedOne v) pieces
    rw [List.singleton_append] at rest
    unfold assembled?
    cases joined : Values.joined? (v :: pieces) with
    | none =>
      rw [joined] at rest
      exact rest
    | some w =>
      rw [joined] at rest
      obtain ⟨content, kept⟩ := rest
      refine ⟨?_, kept⟩
      show (((start line).push v).1.pushAll pieces).finish = _
      rw [finish, content]
      exact congrArg (fun w => Parameter.mk w true v.basic) (Values.reverseReverse w)

end Collector

def piece? : Result → Option Values
  | .ok l => l.token.values?.map (·.1)
  | .error _ => none

/-- A value, or a comment, which goes by. -/
def Valued (x : Result) : Prop := (piece? x).isSome ∨ (lexedComment? x).isSome

def openAfter (a : Option Collector) (l : List Result) : Option Collector := l.foldl (fun a x => (taken a x).array) a

theorem parametersAppend (a : Option Collector) (l m : List Result) :
    parametersOf a (l ++ m) = parametersOf a l ++ parametersOf (openAfter a l) m := by
  induction l generalizing a with
  | nil => rfl
  | cons x l ih => simp [parametersOf, openAfter, ih]

theorem problemsAppend (a : Option Collector) {l : List Result} (closed : openAfter a l = none) (m : List Result) :
    problemsOf a (l ++ m) = problemsOf a l ++ problemsOf none m := by
  induction l generalizing a with
  | nil =>
    rw [show a = none from closed]
    rfl
  | cons x l ih => simp [problemsOf, ih _ closed]

theorem takenPiece (c : Collector) {x : Result} {v : Values} (piece : piece? x = some v) :
    taken (some c) x = ⟨some (c.push v).1, none, (c.push v).2⟩ := by
  cases x with
  | error p => cases piece
  | ok l =>
    obtain ⟨token, line⟩ := l
    cases token with
    | integer n | float y | string s | floats l =>
      cases piece
      rfl
    | name s | opening | closing | comment text structured => cases piece

theorem takenComment (c : Collector) {x : Result} (none : piece? x = none) (valued : Valued x) :
    taken (some c) x = ⟨some c, .none, .none⟩ := by
  have comment : (lexedComment? x).isSome := valued.resolve_left (by simp [none])
  cases x with
  | error p => cases comment
  | ok l =>
    obtain ⟨token, line⟩ := l
    cases token with
    | comment text structured => rfl
    | integer n | float y | string s | floats l | name s | opening | closing => cases comment

theorem insideArray (c : Collector) {inner : List Result} (valued : ∀ x ∈ inner, Valued x) (rest : List Result) :
    parametersOf (some c) (inner ++ rest) = parametersOf (some (c.pushAll (inner.filterMap piece?))) rest ∧
    problemsOf (some c) (inner ++ rest) =
      c.refused (inner.filterMap piece?) ++ problemsOf (some (c.pushAll (inner.filterMap piece?))) rest := by
  induction inner generalizing c with
  | nil => exact ⟨rfl, rfl⟩
  | cons x inner ih =>
    obtain ⟨first, later⟩ := List.forall_mem_cons.mp valued
    cases piece : piece? x with
    | some v =>
      obtain ⟨parameters, problems⟩ := ih (c.push v).1 later
      rw [List.filterMap_cons_some piece]
      constructor
      · simp only [List.cons_append, parametersOf, takenPiece c piece]
        exact parameters
      · simp only [List.cons_append, problemsOf, takenPiece c piece, Collector.refused, List.append_assoc]
        exact congrArg _ problems
    | none =>
      rw [List.filterMap_cons_none piece, List.cons_append, parametersOf, problemsOf, takenComment c piece first]
      exact ih c later

theorem decodedGroup {bytes : Bytes} {g : Group} (group : g ∈ (groups ((lexed bytes).map Lexed.result)).2) :
    ∃ earlier later, decode bytes = earlier ++ g.items ++ later := by
  obtain ⟨before, after, split⟩ := List.append_of_mem group
  refine ⟨leading (groups ((lexed bytes).map Lexed.result)).1 ++ before.flatMap Group.items,
    after.flatMap Group.items, ?_⟩
  rw [decodeGroups, split]
  simp

/-- The items of a request with such a parameter between others. -/
def Group.itemsWith (g : Group) (kind : RequestKind) (before : List Result) (p : Parameter) (after : List Result) :
    List Item :=
  (match problemsOf none before ++ problemsOf none after with
    | [] => [request ⟨kind, g.line, parametersOf none before ++ p :: parametersOf none after⟩]
    | problems => problems.map .error) ++ (g.body.filterMap lexedComment?).map remark

section Bracketed
variable {g : Group} {kind : RequestKind} {before inner after : List Result} {start stop : Nat}

theorem bracketedParts (closed : openAfter none before = none) (valued : ∀ x ∈ inner, Valued x)
    (body : g.body = before ++ .ok ⟨.opening, start⟩ :: (inner ++ .ok ⟨.closing, stop⟩ :: after)) :
    let pieces := inner.filterMap piece?
    parametersOf none g.body =
      parametersOf none before ++ ((Collector.start start).pushAll pieces).finish :: parametersOf none after ∧
    problemsOf none g.body =
      problemsOf none before ++ ((Collector.start start).refused pieces ++ problemsOf none after) := by
  obtain ⟨parameters, problems⟩ := insideArray (.start start) valued (.ok ⟨.closing, stop⟩ :: after)
  rw [body, parametersAppend, problemsAppend _ closed, closed]
  exact ⟨congrArg _ parameters, congrArg _ problems⟩

theorem bracketedAccepted (known : RequestKind.ofName? g.name = some kind) (closed : openAfter none before = none)
    (valued : ∀ x ∈ inner, Valued x)
    (body : g.body = before ++ .ok ⟨.opening, start⟩ :: (inner ++ .ok ⟨.closing, stop⟩ :: after)) {p : Parameter}
    (assembled : Collector.assembled? (inner.filterMap piece?) = some p) :
    g.items = g.itemsWith kind before p after := by
  obtain ⟨parameters, problems⟩ := bracketedParts closed valued body
  have pushed := Collector.pushedAssembled start (inner.filterMap piece?)
  rw [assembled] at pushed
  rw [pushed.1] at parameters
  rw [pushed.2, List.nil_append] at problems
  unfold Group.itemsWith Group.items
  rw [← parameters, ← problems]
  cases problemsOf none g.body with
  | nil => simp only [known]
  | cons q l => simp only [known]

theorem bracketedRefused (known : RequestKind.ofName? g.name = some kind) (closed : openAfter none before = none)
    (valued : ∀ x ∈ inner, Valued x)
    (body : g.body = before ++ .ok ⟨.opening, start⟩ :: (inner ++ .ok ⟨.closing, stop⟩ :: after))
    (mixed : Collector.assembled? (inner.filterMap piece?) = none) :
    (∃ p, p.kind = .badArray ∧ .error p ∈ g.items) ∧ ∀ r, request r ∉ g.items := by
  obtain ⟨-, problems⟩ := bracketedParts closed valued body
  have pushed := Collector.pushedAssembled start (inner.filterMap piece?)
  rw [mixed] at pushed
  obtain ⟨p, refused, bad⟩ := pushed
  have reported : p ∈ problemsOf none g.body :=
    problems ▸ List.mem_append_right _ (List.mem_append_left _ refused)
  have items : g.items = (problemsOf none g.body).map .error ++ (g.body.filterMap lexedComment?).map remark := by
    simp only [Group.items, known]
    cases all : problemsOf none g.body with
    | nil =>
      rw [all] at reported
      cases reported
    | cons q l => rfl
  rw [items]
  refine ⟨⟨p, bad, List.mem_append_left _ (List.mem_map_of_mem reported)⟩, fun r mem => ?_⟩
  rcases List.mem_append.mp mem with mem | mem
  · obtain ⟨q, -, same⟩ := List.mem_map.mp mem
    cases same
  · obtain ⟨c, -, same⟩ := List.mem_map.mp mem
    cases same

end Bracketed

/-- Between its brackets an array becomes what its values are all together, and takes its place among the parameters
of the request; strings among numbers are reported, and then there is no request. -/
theorem arraysAssembled {g : Group} {kind : RequestKind} (known : RequestKind.ofName? g.name = some kind)
    {before inner after : List Result} {start stop : Nat} (closed : openAfter none before = none)
    (valued : ∀ x ∈ inner, Valued x)
    (body : g.body = before ++ .ok ⟨.opening, start⟩ :: (inner ++ .ok ⟨.closing, stop⟩ :: after)) :
    let pieces := inner.filterMap piece?
    (pieces = [] → g.items = g.itemsWith kind before ⟨.floats [], true, .float⟩ after) ∧
    (∀ first ∈ pieces.head?,
      ((∀ v ∈ pieces, v.basic = .integer) →
        g.items = g.itemsWith kind before ⟨.integers (pieces.flatMap Values.ints), true, first.basic⟩ after) ∧
      ((∃ v ∈ pieces, v.basic = .float) → (∀ v ∈ pieces, v.basic ≠ .string) →
        g.items = g.itemsWith kind before ⟨.floats (pieces.flatMap Values.singles), true, first.basic⟩ after) ∧
      ((∀ v ∈ pieces, v.basic = .string) →
        g.items = g.itemsWith kind before ⟨.strings (pieces.flatMap Values.texts), true, first.basic⟩ after)) ∧
    ((∃ v ∈ pieces, v.basic = .string) → (∃ v ∈ pieces, v.basic ≠ .string) →
      (∃ p, p.kind = .badArray ∧ .error p ∈ g.items) ∧ ∀ r, request r ∉ g.items) ∧
    ∀ bytes, g ∈ (groups ((lexed bytes).map Lexed.result)).2 →
      ∃ earlier later, decode bytes = earlier ++ g.items ++ later := by
  intro pieces
  have accepted {first w : Values} (head : first ∈ pieces.head?) (joined : Values.joined? pieces = some w) :
      g.items = g.itemsWith kind before ⟨w, true, first.basic⟩ after := by
    refine bracketedAccepted known closed valued body ?_
    obtain ⟨rest, split⟩ := List.head?_eq_some_iff.mp head
    rw [show inner.filterMap piece? = first :: rest from split, Collector.assembled?, ← split, joined]
    rfl
  refine ⟨fun none => ?_, fun first head => ⟨fun integers => ?_, fun float numbers => ?_, fun strings => ?_⟩,
    fun string number => ?_, fun bytes => decodedGroup⟩
  · refine bracketedAccepted known closed valued body ?_
    rw [show inner.filterMap piece? = [] from none]
    rfl
  · exact accepted head (Values.joinedIntegers integers)
  · exact accepted head (Values.joinedFloats float numbers)
  · exact accepted head (Values.joinedStrings (List.ne_nil_of_mem (List.mem_of_head? head)) strings)
  · refine bracketedRefused known closed valued body ?_
    have mixed := Values.joinedNone.mpr ⟨string, number⟩
    cases split : pieces with
    | nil =>
      obtain ⟨v, mem, -⟩ := string
      rw [split] at mem
      cases mem
    | cons v rest =>
      rw [show inner.filterMap piece? = v :: rest from split, Collector.assembled?, ← split, mixed]
      rfl

/-- `1 0.5 0`, with a remark between. -/
def mixture : List Result :=
  [.ok ⟨.integer 1, 1⟩, .ok ⟨.float ⟨0x3f000000⟩, 1⟩, .ok ⟨.comment "mixed" false, 1⟩, .ok ⟨.integer 0, 2⟩]

def color : Group := ⟨"Color", 1, .ok ⟨.opening, 1⟩ :: mixture ++ [.ok ⟨.closing, 2⟩]⟩

theorem colorAssembled :
    color.items = [request ⟨.color, 1, [⟨.floats [.one, ⟨0x3f000000⟩, .zero], true, .integer⟩]⟩,
      remark ⟨"mixed", false, 1⟩] := by
  have known : RequestKind.ofName? color.name = some .color := by decide +kernel
  have valued : ∀ x ∈ mixture, Valued x := by simp [mixture, Valued, piece?, Token.values?, lexedComment?]
  have parts := arraysAssembled known (show openAfter none [] = none from rfl) valued
    (show color.body = [] ++ .ok ⟨.opening, 1⟩ :: (mixture ++ .ok ⟨.closing, 2⟩ :: []) from rfl)
  have made := (parts.2.1 _ rfl).2.1 (by decide) (by decide)
  exact made.trans (by decide +kernel)

end Stream
end SceneStream
