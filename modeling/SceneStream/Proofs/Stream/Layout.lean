import SceneStream.Proofs.Stream.WordFound

/-! Streams as words with spacing around them. The lexer goes by the words alone: blanks and reserved codes tell
words apart and give nothing themselves, also between a definition and its string. -/
namespace SceneStream.Stream
open Spelling

/-! What is told without the places of it. -/

def bare : Result → Except Problem Token
  | .ok l => .ok l.token
  | .error p => .error { p with line := none }

/-- Tokens and problems of a stream, lines aside. -/
def told (bytes : Bytes) : List (Except Problem Token) := (lexed bytes).map fun x => bare x.result

def unplaced (e : Element) : Scan := ⟨e, 0, ⟨[], 0⟩, false⟩

/-- What elements tell by themselves. -/
def meaning (d : Definitions) (es : List Element) : List (Except Problem Token) :=
  (Definitions.run 0 d [] (es.map unplaced)).map fun x => bare x.result

namespace Definitions

structure Alike (d e : Definitions) : Prop where
  known : d.known = e.known
  waiting : d.waiting.map Prod.fst = e.waiting.map Prod.fst

variable {d e : Definitions}

theorem bareProblem (f : Fault) (m n : Nat) : bare (.error (f.problem m)) = bare (.error (f.problem n)) := by
  cases f <;> rfl

theorem acceptAlike (alike : Alike d e) (t : Token) (m n : Nat) :
    Alike (d.accept t m).1 (e.accept t n).1 ∧ (d.accept t m).2.map bare = (e.accept t n).2.map bare := by
  obtain ⟨known, waiting⟩ := d
  obtain ⟨known', waiting'⟩ := e
  obtain ⟨rfl, same⟩ := alike
  cases waiting with
  | nil =>
    cases List.map_eq_nil_iff.mp same.symm
    exact ⟨⟨rfl, rfl⟩, rfl⟩
  | cons x outer =>
    cases waiting' with
    | nil => cases same
    | cons y outer' =>
      obtain ⟨slot, outers⟩ := List.cons.inj same
      cases t with
      | string s => exact ⟨⟨congrArg (fun slot => (slot, s) :: known) slot, outers⟩, rfl⟩
      | _ => exact ⟨⟨rfl, rfl⟩, congrArg some (bareProblem .notDefined x.2 y.2)⟩

theorem refuseAlike (alike : Alike d e) (f : Fault) (m n : Nat) :
    Alike (d.refuse f m).1 (e.refuse f n).1 ∧ (d.refuse f m).2.map bare = (e.refuse f n).2.map bare :=
  ⟨⟨alike.known, rfl⟩, congrArg some (bareProblem f m n)⟩

theorem stepAlike (alike : Alike d e) (s : Scan) : Alike (d.step s).1 (e.step (unplaced s.element)).1 ∧
    (d.step s).2.map bare = (e.step (unplaced s.element)).2.map bare := by
  unfold step
  match s.element with
  | .token t => exact acceptAlike alike t ..
  | .define slot =>
    exact ⟨⟨alike.known, congrArg (slot :: ·) alike.waiting⟩, rfl⟩
  | .recall slot =>
    dsimp only [unplaced]
    rw [alike.known]
    cases e.known.lookup slot with
    | some text => exact acceptAlike alike _ ..
    | none => exact refuseAlike alike _ ..
  | .reserved => exact ⟨alike, rfl⟩
  | .fault f => exact refuseAlike alike f ..

theorem finishAlike (alike : Alike d e) (m n : Nat) :
    (d.finish m).map (fun x => bare x.result) = (e.finish n).map fun x => bare x.result := by
  obtain ⟨known, waiting⟩ := d
  obtain ⟨known', waiting'⟩ := e
  obtain ⟨-, same⟩ := alike
  cases waiting with
  | nil =>
    cases List.map_eq_nil_iff.mp same.symm
    rfl
  | cons x outer =>
    cases waiting' with
    | nil => cases same
    | cons y outer' => exact congrArg (fun x => [x]) (bareProblem .truncated x.2 y.2)

theorem runNext (last : Nat) (d : Definitions) (s : Scan) (ss : List Scan) :
    (run last d [] (s :: ss)).map (fun x => bare x.result) =
      ((d.step s).2.map bare).toList ++ (run last (d.step s).1 [] ss).map fun x => bare x.result := by
  cases given : d.step s with
  | mk after result =>
    simp only [run, given]
    cases result with
    | none => rfl
    | some result =>
      dsimp only
      rw [runDone]
      rfl

theorem runMeaning (last : Nat) (alike : Alike d e) (ss : List Scan) :
    (run last d [] ss).map (fun x => bare x.result) =
      meaning e ((ss.map Scan.element).filter (· ≠ .reserved)) := by
  -- Places do not matter to what is told, and reserved codes are nothing.
  induction ss generalizing d e with
  | nil => exact finishAlike alike ..
  | cons s ss ih =>
    rw [runNext, List.map_cons]
    by_cases reserved : s.element = .reserved
    · have nothing : d.step s = (d, none) := by
        unfold step
        rw [reserved]
      rw [List.filter_cons_of_neg (by simp [reserved]), nothing]
      exact ih alike
    · obtain ⟨next, same⟩ := stepAlike alike s
      rw [List.filter_cons_of_pos (by simp [reserved]), same, ih next]
      exact (runNext 0 e (unplaced s.element) _).symm

end Definitions

/-! Layouts. -/

structure Word where
  bytes : Bytes
  element : Element
  spelled : Spelled bytes element

/-- The words in their order, with spacing of any length around them; behind a name or a number there is some,
unless it is the last. -/
inductive Layout : List Word → Bytes → Prop where
  | ended {gap : Bytes} (spacing : ∀ b ∈ gap, isSpacing b = true) : Layout [] gap
  | word {gap rest : Bytes} {w : Word} {words : List Word} (spacing : ∀ b ∈ gap, isSpacing b = true)
      (apart : isLoose w.bytes = true → Apart rest) (later : Layout words rest) :
      Layout (w :: words) (gap ++ (w.bytes ++ rest))

/-- The words, each behind a gap of its own, and one more gap behind the last. -/
def laid : List (Bytes × Word) → Bytes → Bytes
  | [], last => last
  | (gap, w) :: more, last => gap ++ (w.bytes ++ laid more last)

def Gap (gap : Bytes) : Prop := gap ≠ [] ∧ ∀ b ∈ gap, isSpacing b = true

theorem gapApart {gap : Bytes} (some : Gap gap) (rest : Bytes) : Apart (gap ++ rest) := by
  intro b head
  cases gap with
  | nil => exact absurd rfl some.1
  | cons x gap => exact some.2 b (Option.some.inj head ▸ List.mem_cons_self)

theorem laidLayout {l : List (Bytes × Word)} {last : Bytes} (gaps : ∀ x ∈ l, Gap x.1) (ends : Gap last) :
    Layout (l.map Prod.snd) (laid l last) := by
  induction l with
  | nil => exact .ended ends.2
  | cons x l ih =>
    obtain ⟨gap, w⟩ := x
    have later := ih fun y member => gaps y (List.mem_cons_of_mem _ member)
    refine .word (gaps (gap, w) List.mem_cons_self).2 (fun _ => ?_) later
    cases l with
    | nil => exact List.append_nil last ▸ gapApart ends []
    | cons y l => exact gapApart (gaps y (by simp)) _

def evenly (gap : Bytes) (words : List Word) : Bytes := laid (words.map (gap, ·)) gap

theorem evenLayout {gap : Bytes} (some : Gap gap) (words : List Word) : Layout words (evenly gap words) := by
  have all : Layout ((words.map (gap, ·)).map Prod.snd) (evenly gap words) := laidLayout (by simp [some]) some
  simpa [Function.comp_def] using all

def elementsFrom (c : Cursor) : List Element := ((scansFrom c).map Scan.element).filter (· ≠ .reserved)

theorem elementsNext {c : Cursor} {s : Scan} (found : scan? c = some s) (some : s.element ≠ .reserved) :
    elementsFrom c = s.element :: elementsFrom s.after := by
  unfold elementsFrom
  rw [scansFromStep, found, List.map_cons, List.filter_cons_of_pos (by simp [some])]

theorem reservedValue {b : UInt8} (reserved : isReserved b = true) :
    0xa7 ≤ b.toNat ∧ b.toNat < 0xc8 ∨ 0xd1 ≤ b.toNat := by
  simpa [isReserved, UInt8.le_iff_toNat_le, UInt8.lt_iff_toNat_lt] using reserved

theorem elementReserved {b : UInt8} (reserved : isReserved b = true) (c : Cursor) :
    elementAt b c = (.reserved, c, false) := by
  have value := reservedValue reserved
  have high : 0x80 ≤ b := UInt8.le_iff_toNat_le.mpr (by simp only [UInt8.reduceToNat]; omega)
  unfold elementAt binary
  rw [if_pos high]
  simp only [UInt8.lt_iff_toNat_lt, beq_iff_eq, ← UInt8.toNat_inj, UInt8.reduceToNat]
  rw [if_neg (by omega), if_neg (by omega), if_neg (by omega), if_neg (by omega), if_neg (by omega),
    if_neg (by omega)]
  split
  · rfl
  · rw [if_neg (by omega), if_neg (by omega), if_neg (by omega), if_neg (by omega), if_neg (by omega),
      if_neg (by omega)]

theorem elementsSpacing {gap : Bytes} (spacing : ∀ b ∈ gap, isSpacing b = true) (rest : Bytes) (line : Nat) :
    ∃ line', elementsFrom ⟨gap ++ rest, line⟩ = elementsFrom ⟨rest, line'⟩ := by
  induction gap generalizing line with
  | nil => exact ⟨line, rfl⟩
  | cons b gap ih =>
    have more := ih fun x member => spacing x (List.mem_cons_of_mem b member)
    by_cases blank : isBlank b = true
    · obtain ⟨between, same⟩ := scanBlank blank (gap ++ rest) line
      obtain ⟨after, others⟩ := more between
      refine ⟨after, Eq.trans ?_ others⟩
      unfold elementsFrom
      rw [scansFromStep, scansFromStep ⟨gap ++ rest, between⟩, List.cons_append, same]
    · have reserved : isReserved b = true := by
        have all := spacing b List.mem_cons_self
        simpa [isSpacing, blank] using all
      have found := scanVisible (Bool.not_eq_true _ ▸ blank) (gap ++ rest) line
      rw [elementReserved reserved] at found
      obtain ⟨after, others⟩ := more line
      refine ⟨after, Eq.trans ?_ others⟩
      unfold elementsFrom
      rw [List.cons_append, scansFromStep, found]
      rfl

theorem packedElement {op : UInt8} {bytes : Bytes} {e : Element} (payload : Packed op bytes e) : e ≠ .reserved := by
  cases payload <;> exact Element.noConfusion

theorem spelledElement {word : Bytes} {e : Element} (spelled : Spelled word e) : e ≠ .reserved := by
  cases spelled with
  | number =>
    unfold number
    dsimp only
    split <;> exact Element.noConfusion
  | packed payload => exact packedElement payload
  | _ => exact Element.noConfusion

theorem layoutElements {words : List Word} {bytes : Bytes} (layout : Layout words bytes) (line : Nat) :
    elementsFrom ⟨bytes, line⟩ = words.map Word.element := by
  induction layout generalizing line with
  | @ended gap spacing =>
    obtain ⟨after, same⟩ := elementsSpacing spacing [] line
    rw [← List.append_nil gap, same]
    rfl
  | @word gap rest w words spacing apart _ ih =>
    obtain ⟨between, same⟩ := elementsSpacing spacing (w.bytes ++ rest) line
    obtain ⟨after, cut, found⟩ := wordSpells w.spelled apart between
    rw [same, elementsNext found (spelledElement w.spelled), ih after, List.map_cons]

theorem layoutTold {words : List Word} {bytes : Bytes} (layout : Layout words bytes) :
    told bytes = meaning .empty (words.map Word.element) :=
  (Definitions.runMeaning (lastLine bytes) ⟨rfl, rfl⟩ (scans bytes)).trans
    (congrArg (meaning .empty) (layoutElements layout 1))

/-- However the same words are laid out, the same is told of them, and it is what the words tell by themselves. The
words leave nothing out: every element that is read whole is one, behind spacing, if it is any at all. -/
theorem spacingUnseen :
    (∀ {words : List Word} {a b : Bytes}, Layout words a → Layout words b →
      told a = told b ∧ told a = meaning .empty (words.map Word.element)) ∧
    ∀ {c : Cursor} {s : Scan}, scan? c = some s → s.cut = false → ∃ gap word,
      (∀ b ∈ gap, isSpacing b = true) ∧ c.rest = gap ++ word ++ s.after.rest ∧
      (Spelled word s.element ∨ word = [] ∧ s.element = .reserved) := by
  refine ⟨fun first second => ?_, scanFound⟩
  have here := layoutTold first
  exact ⟨here.trans (layoutTold second).symm, here⟩

/-- A request is defined as `"Colo\162"` and recalled with `[1. -.5e+1]`, a remark, two packed floats, and a string
that was never defined. -/
def colorWords : List Word := [
  ⟨[0xcc, 7], _, .packed (.defineRequest rfl rfl)⟩,
  ⟨34 :: ([67, 111, 108, 111] ++ 92 :: ([49, 54, 50] ++ []) ++ [34]), _, .quoted
    (.plain (by decide) (by decide) <| .plain (by decide) (by decide) <| .plain (by decide) (by decide) <|
      .plain (by decide) (by decide) <| .octal (List.all_eq_true.mp rfl) (by decide) (by decide) (.inl rfl)
        .nothing)⟩,
  ⟨[0xa6, 7], _, .packed (.recallRequest rfl rfl)⟩,
  ⟨[91], _, .opening⟩,
  ⟨49 :: ([] ++ ([46] ++ [])), _, .number (.whole (by decide) nofun (.point nofun) .none)⟩,
  ⟨45 :: ([] ++ ([46, 53] ++ [101, 43, 49])), _, .number (.whole (by decide) nofun
    (.point (List.all_eq_true.mp rfl)) (.signed (by decide) (by decide) (List.all_eq_true.mp rfl)))⟩,
  ⟨[93], _, .closing⟩,
  ⟨35 :: ([32, 120] ++ [10]), _, .comment (by decide) (by decide)⟩,
  ⟨0xc8 :: ([2] ++ [0x3f, 0x80, 0, 0, 10, 10, 10, 10]), _, .packed (.floats rfl (by decide) rfl rfl)⟩,
  ⟨[0xcf, 9], _, .packed (.recallString (.inl ⟨rfl, rfl⟩))⟩]

theorem colorLaidOut :
    Layout colorWords (evenly [32] colorWords) ∧ Layout colorWords (evenly [0xff, 0, 10, 0xb0] colorWords) ∧
    told (evenly [32] colorWords) = told (evenly [0xff, 0, 10, 0xb0] colorWords) ∧
    (told (evenly [32] colorWords)).map Except.toOption =
      [some (.name "Color"), some .opening, some (.float ⟨0x3f800000⟩), some (.float ⟨0xc0a00000⟩), some .closing,
       some (.comment " x" false), some (.floats [⟨0x3f800000⟩, ⟨0x0a0a0a0a⟩]),
       none] := by
  have blank : Gap [32] := ⟨nofun, List.all_eq_true.mp rfl⟩
  have reserved : Gap [0xff, 0, 10, 0xb0] := ⟨nofun, List.all_eq_true.mp rfl⟩
  have plain := evenLayout blank colorWords
  have mixed := evenLayout reserved colorWords
  exact ⟨plain, mixed, (spacingUnseen.1 plain mixed).1, by decide +kernel⟩

end SceneStream.Stream
