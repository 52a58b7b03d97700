import SceneStream.Declaration
import SceneStream.Proofs.Number.Numeral

/-! The grammar of declarations, and that what is read is what it spells: class word, type word, array size and
name, in this order, with blanks that two words need between them and that are free elsewhere. -/
namespace SceneStream.Declaration
open Text (isBlank)

inductive ClassWord : String → StorageClass → Prop where
  | constant : ClassWord "constant" .constant
  | uniform : ClassWord "uniform" .uniform
  | varying : ClassWord "varying" .varying
  | vertex : ClassWord "vertex" .vertex
  | faceVarying : ClassWord "facevarying" .faceVarying
  | faceVertex : ClassWord "facevertex" .faceVertex

inductive TypeWord : String → TypeKind → Prop where
  | float : TypeWord "float" .float
  | integer : TypeWord "integer" .integer
  | int : TypeWord "int" .integer
  | string : TypeWord "string" .string
  | point : TypeWord "point" .point
  | vector : TypeWord "vector" .vector
  | normal : TypeWord "normal" .normal
  | hpoint : TypeWord "hpoint" .hpoint
  | color : TypeWord "color" .color
  | matrix : TypeWord "matrix" .matrix

def Blanks (cs : List Char) : Prop := ∀ c ∈ cs, isBlank c = true

def Gap (cs : List Char) : Prop := cs ≠ [] ∧ Blanks cs

/-- A letter or an underscore, then letters, digits, underscores, points and colons. -/
def IsName : List Char → Prop
  | [] => False
  | c :: cs => isNameStart c = true ∧ ∀ d ∈ cs, isNameRest d = true

/-- A class is uniform if no word says another. -/
inductive ClassPart : List Char → StorageClass → Prop where
  | absent : ClassPart [] .uniform
  | word {s : String} {storage : StorageClass} {gap : List Char} (word : ClassWord s storage) (apart : Gap gap) :
      ClassPart (s.toList ++ gap) storage

/-- A size is one if no bracket says another; it is positive and fits a machine word. -/
inductive SizePart : List Char → Nat → Prop where
  | absent : SizePart [] 1
  | bracket {before inner outer ds : List Char} (blank : Blanks before) (left : Blanks inner) (right : Blanks outer)
      (some : ds ≠ []) (digits : ∀ c ∈ ds, c.isDigit = true) (positive : 0 < Nat.ofDigitChars 10 ds 0)
      (fits : Nat.ofDigitChars 10 ds 0 < 2 ^ 64) :
      SizePart (before ++ '[' :: (inner ++ ds ++ outer ++ [']'])) (Nat.ofDigitChars 10 ds 0)

inductive NamePart : List Char → Option String → Prop where
  | absent : NamePart [] none
  | name {gap cs : List Char} (apart : Gap gap) (name : IsName cs) : NamePart (gap ++ cs) (some (String.ofList cs))

/-- The text of a declaration, blanks around it aside. -/
inductive Spells : List Char → Written → Prop where
  | intro {before classPart sizePart namePart after : List Char} {word : String} {w : Written}
      (blank : Blanks before) (storage : ClassPart classPart w.storage) (kind : TypeWord word w.kind)
      (size : SizePart sizePart w.size) (name : NamePart namePart w.name) (last : Blanks after) :
      Spells (before ++ classPart ++ word.toList ++ sizePart ++ namePart ++ after) w

/-! Characters and words. -/

theorem blankValue {c : Char} (blank : isBlank c = true) : c.toNat ≤ 13 ∨ c.toNat = 32 ∨ 133 ≤ c.toNat := by
  simp only [isBlank, Bool.or_eq_true, Bool.and_eq_true, decide_eq_true_eq, beq_iff_eq] at blank
  omega

theorem letterValue {c : Char} (letter : c.isAlpha = true) : 65 ≤ c.toNat ∧ c.toNat ≤ 122 := by
  change (decide (65 ≤ c.val ∧ c.val ≤ 90) || decide (97 ≤ c.val) && decide (c.val ≤ 122)) = true at letter
  simp only [Bool.or_eq_true, Bool.and_eq_true, decide_eq_true_eq, UInt32.le_iff_toNat_le] at letter
  change (65 ≤ c.toNat ∧ c.toNat ≤ 90) ∨ (97 ≤ c.toNat ∧ c.toNat ≤ 122) at letter
  omega

theorem digitValue {c : Char} (digit : c.isDigit = true) : 48 ≤ c.toNat ∧ c.toNat ≤ 57 := by
  simp only [Char.isDigit, Bool.and_eq_true, decide_eq_true_eq, ge_iff_le, UInt32.le_iff_toNat_le] at digit
  exact digit

theorem nameValue {c : Char} (inside : isNameRest c = true) : 46 ≤ c.toNat ∧ c.toNat ≤ 122 := by
  simp only [isNameRest, Char.isAlphanum, Bool.or_eq_true, beq_iff_eq] at inside
  rcases inside with (((letter | digit) | rfl) | rfl) | rfl
  · have := letterValue letter
    omega
  · have := digitValue digit
    omega
  all_goals decide

theorem startRest {c : Char} (start : isNameStart c = true) : isNameRest c = true := by
  simp only [isNameStart, Bool.or_eq_true, beq_iff_eq] at start
  rcases start with letter | rfl
  · simp [isNameRest, Char.isAlphanum, letter]
  · rfl

theorem visible {c : Char} (low : 33 ≤ c.toNat) (high : c.toNat ≤ 132) : isBlank c = false := by
  refine Bool.eq_false_iff.mpr fun blank => ?_
  have := blankValue blank
  omega

theorem blankNoLetter {c : Char} (blank : isBlank c = true) : c.isAlpha = false := by
  refine Bool.eq_false_iff.mpr fun letter => ?_
  have := blankValue blank
  have := letterValue letter
  omega

theorem blankNoName {c : Char} (blank : isBlank c = true) : isNameRest c = false := by
  refine Bool.eq_false_iff.mpr fun inside => ?_
  have := blankValue blank
  have := nameValue inside
  omega

theorem blankNoDigit {c : Char} (blank : isBlank c = true) : c.isDigit = false := by
  refine Bool.eq_false_iff.mpr fun digit => ?_
  have := blankValue blank
  have := digitValue digit
  omega

theorem classRead {s : String} {storage : StorageClass} :
    ClassWord s storage ↔ StorageClass.ofName? s = some storage := by
  constructor
  · rintro ⟨⟩ <;> rfl
  · intro read
    have same := List.find?_some read
    rw [← beq_iff_eq.mp same]
    cases storage <;> constructor

theorem typeRead {s : String} {kind : TypeKind} : TypeWord s kind ↔ TypeKind.ofName? s = some kind := by
  constructor
  · rintro ⟨⟩ <;> rfl
  · intro read
    unfold TypeKind.ofName? at read
    split at read
    · rename_i short
      cases read
      rw [beq_iff_eq.mp short]
      exact .int
    · have same := List.find?_some read
      rw [← beq_iff_eq.mp same]
      cases kind <;> constructor

def IsWord (s : String) : Prop := s.toList ≠ [] ∧ ∀ c ∈ s.toList, c.isAlpha = true

theorem classLetters {s : String} {storage : StorageClass} (word : ClassWord s storage) : IsWord s := by
  cases word <;> exact ⟨nofun, List.all_eq_true.mp rfl⟩

theorem typeLetters {s : String} {kind : TypeKind} (word : TypeWord s kind) :
    IsWord s ∧ StorageClass.ofName? s = none := by
  cases word <;> exact ⟨⟨nofun, List.all_eq_true.mp rfl⟩, rfl⟩

def Ends (rest : List Char) : Prop := ∀ c ∈ rest.head?, c.isAlpha = false

theorem wordRun {s : String} (word : IsWord s) {rest : List Char} (ends : Ends rest) :
    (s.toList ++ rest).takeWhile Char.isAlpha = s.toList ∧ (s.toList ++ rest).dropWhile Char.isAlpha = rest := by
  rw [List.takeWhile_append_of_pos word.2, List.dropWhile_append_of_pos word.2]
  cases rest with
  | nil => exact ⟨List.append_nil _, rfl⟩
  | cons c rest =>
    have stop := Bool.eq_false_iff.mp (ends c rfl)
    rw [List.takeWhile_cons_of_neg stop, List.dropWhile_cons_of_neg stop]
    exact ⟨List.append_nil _, rfl⟩

theorem skipBlanks {gap : List Char} (blank : Blanks gap) (rest : List Char) : skip (gap ++ rest) = skip rest := by
  unfold skip
  rw [List.dropWhile_append_of_pos blank]

theorem skipStops {c : Char} (visible : isBlank c = false) (rest : List Char) : skip (c :: rest) = c :: rest := by
  unfold skip
  rw [List.dropWhile_cons_of_neg (by simp [visible])]

theorem skipAll {gap : List Char} (blank : Blanks gap) : skip gap = [] := by
  have all := skipBlanks blank []
  rwa [List.append_nil] at all

theorem skipSplit (cs : List Char) : ∃ gap, cs = gap ++ skip cs ∧ Blanks gap ∧
    ∀ c rest, skip cs = c :: rest → isBlank c = false := by
  refine ⟨cs.takeWhile isBlank, List.takeWhile_append_dropWhile.symm, List.all_eq_true.mp List.all_takeWhile, ?_⟩
  intro c rest same
  have stopped := List.head?_dropWhile_not isBlank cs
  rwa [show cs.dropWhile isBlank = c :: rest from same] at stopped

theorem skipLetter {c : Char} (letter : c.isAlpha = true) (rest : List Char) : skip (c :: rest) = c :: rest :=
  skipStops (visible (by have := letterValue letter; omega) (by have := letterValue letter; omega)) rest

theorem skipWord {s : String} (word : IsWord s) (rest : List Char) : skip (s.toList ++ rest) = s.toList ++ rest := by
  cases same : s.toList with
  | nil => exact absurd same word.1
  | cons c cs => exact skipLetter (word.2 c (by simp [same])) (cs ++ rest)

/-! What is spelled is read. -/

theorem gapHead {gap : List Char} (apart : Gap gap) : ∃ b more, gap = b :: more ∧ isBlank b = true ∧ Blanks more := by
  cases gap with
  | nil => exact absurd rfl apart.1
  | cons b more => exact ⟨b, more, rfl, apart.2 b List.mem_cons_self, fun c mem => apart.2 c (List.mem_cons_of_mem b mem)⟩

theorem blanksEnd {cs : List Char} (blank : Blanks cs) : Ends cs :=
  fun c head => blankNoLetter (blank c (List.mem_of_mem_head? head))

section Complete
variable {namePart sizePart after : List Char} {name : Option String} {n : Nat}

theorem nameSkips (spelled : NamePart namePart name) (last : Blanks after) :
    ∀ rest, skip (namePart ++ after) ≠ '[' :: rest := by
  intro rest same
  cases spelled with
  | absent =>
    rw [List.nil_append, skipAll last] at same
    cases same
  | @name gap cs apart isName =>
    rw [List.append_assoc, skipBlanks apart.2] at same
    cases cs with
    | nil => exact isName
    | cons c cs =>
      have value := nameValue (startRest isName.1)
      rw [List.cons_append, skipStops (visible (by omega) (by omega))] at same
      cases (List.cons_eq_cons.mp same).1
      cases isName.1

theorem nameEnds (spelled : NamePart namePart name) (last : Blanks after) : Ends (namePart ++ after) := by
  cases spelled with
  | absent => exact blanksEnd last
  | name apart isName =>
    obtain ⟨b, more, rfl, blank, -⟩ := gapHead apart
    intro c head
    cases head
    exact blankNoLetter blank

theorem nameRead (spelled : NamePart namePart name) (last : Blanks after) :
    ending? (namePart ++ after) = some name := by
  cases spelled with
  | absent =>
    cases after with
    | nil => rfl
    | cons b more =>
      have blank : isBlank b = true := last b List.mem_cons_self
      have rest : skip more = [] := skipAll fun c mem => last c (List.mem_cons_of_mem b mem)
      simp [ending?, blank, rest]
  | @name gap cs apart isName =>
    obtain ⟨b, more, rfl, blank, blanks⟩ := gapHead apart
    cases cs with
    | nil => exact absurd isName id
    | cons c cs =>
      have value := nameValue (startRest isName.1)
      have found : skip (more ++ c :: (cs ++ after)) = c :: (cs ++ after) := by
        rw [skipBlanks blanks, skipStops (visible (by omega) (by omega))]
      have stop : after.takeWhile isNameRest = [] ∧ after.dropWhile isNameRest = after := by
        cases after with
        | nil => exact ⟨rfl, rfl⟩
        | cons d after =>
          have other : ¬ isNameRest d = true := Bool.eq_false_iff.mp (blankNoName (last d List.mem_cons_self))
          exact ⟨List.takeWhile_cons_of_neg other, List.dropWhile_cons_of_neg other⟩
      have taken : (cs ++ after).takeWhile isNameRest = cs := by
        rw [List.takeWhile_append_of_pos isName.2, stop.1, List.append_nil]
      have left : (cs ++ after).dropWhile isNameRest = after := by
        rw [List.dropWhile_append_of_pos isName.2, stop.2]
      simp [ending?, blank, found, taken, left, skipAll last, isName.1]

theorem sizeValue {ds : List Char} (some : ds ≠ []) (positive : 0 < Nat.ofDigitChars 10 ds 0)
    (fits : Nat.ofDigitChars 10 ds 0 < 2 ^ 64) : size? ds = .some (Nat.ofDigitChars 10 ds 0) := by
  have within : (ds.isEmpty || Number.digitsValue ds == 0 || decide (2 ^ 64 ≤ Number.digitsValue ds)) = false := by
    rw [Number.digitsValueChars]
    simp only [Bool.or_eq_false_iff, List.isEmpty_eq_false_iff, beq_eq_false_iff_ne, decide_eq_false_iff_not]
    exact ⟨⟨some, Nat.ne_of_gt positive⟩, Nat.not_le_of_lt fits⟩
  unfold size?
  dsimp only
  rw [within, if_neg Bool.false_ne_true, Number.digitsValueChars]

theorem digitsRun {ds outer : List Char} (digits : ∀ c ∈ ds, c.isDigit = true) (right : Blanks outer) (rest : List Char) :
    (ds ++ (outer ++ ']' :: rest)).takeWhile isDigit = ds ∧
      (ds ++ (outer ++ ']' :: rest)).dropWhile isDigit = outer ++ ']' :: rest := by
  have stop : ∀ c ∈ (outer ++ ']' :: rest).head?, ¬ isDigit c = true := by
    intro c head
    cases outer with
    | nil =>
      cases head
      decide
    | cons b outer =>
      cases head
      exact Bool.eq_false_iff.mp (blankNoDigit (right _ List.mem_cons_self))
  rw [List.takeWhile_append_of_pos (p := isDigit) digits, List.dropWhile_append_of_pos (p := isDigit) digits]
  generalize outer ++ ']' :: rest = tail at stop ⊢
  cases tail with
  | nil => exact ⟨List.append_nil _, rfl⟩
  | cons c tail =>
    have other := stop c rfl
    rw [List.takeWhile_cons_of_neg other, List.dropWhile_cons_of_neg other]
    exact ⟨List.append_nil _, rfl⟩

theorem bracketRead {inner ds outer rest : List Char} (left : Blanks inner) (right : Blanks outer) (some : ds ≠ [])
    (digits : ∀ c ∈ ds, c.isDigit = true) (positive : 0 < Nat.ofDigitChars 10 ds 0)
    (fits : Nat.ofDigitChars 10 ds 0 < 2 ^ 64) :
    bracket? ('[' :: (inner ++ (ds ++ (outer ++ ']' :: rest)))) = .some (Nat.ofDigitChars 10 ds 0, rest) := by
  have started : skip (inner ++ (ds ++ (outer ++ ']' :: rest))) = ds ++ (outer ++ ']' :: rest) := by
    rw [skipBlanks left]
    cases ds with
    | nil => exact absurd rfl some
    | cons d ds =>
      have := digitValue (digits d List.mem_cons_self)
      exact skipStops (visible (by omega) (by omega)) _
  have closed : skip (outer ++ ']' :: rest) = ']' :: rest := by
    rw [skipBlanks right]
    exact skipStops rfl rest
  obtain ⟨taken, left⟩ := digitsRun digits right rest
  simp only [bracket?, started, taken, left, closed, sizeValue some positive fits, Option.map_some]

theorem bracketAbsent {rest : List Char} (other : ∀ more, skip rest ≠ '[' :: more) :
    bracket? rest = some (1, rest) := by
  unfold bracket?
  split
  · exact absurd (skipStops rfl _) (other _)
  · rfl

theorem sizeRead (spelled : SizePart sizePart n) {rest : List Char} (other : ∀ more, skip rest ≠ '[' :: more) :
    bracket? (match skip (sizePart ++ rest) with | '[' :: r => '[' :: r | _ => sizePart ++ rest) = some (n, rest) := by
  cases spelled with
  | absent =>
    rw [List.nil_append]
    split
    · rename_i r same
      exact absurd same (other r)
    · exact bracketAbsent other
  | bracket blank left right some digits positive fits =>
    have found : ∀ tail, skip ('[' :: tail) = '[' :: tail := skipStops rfl
    rw [List.append_assoc, skipBlanks blank, List.cons_append, found]
    simp only [List.append_assoc, List.singleton_append]
    exact bracketRead left right some digits positive fits

theorem sizeEnds (spelled : SizePart sizePart n) {rest : List Char} (ends : Ends rest) : Ends (sizePart ++ rest) := by
  cases spelled with
  | absent => exact ends
  | @bracket before inner outer ds blank =>
    cases before with
    | nil =>
      intro c head
      cases head
      rfl
    | cons b before =>
      intro c head
      cases head
      exact blankNoLetter (blank _ List.mem_cons_self)

theorem typedRead (storage : StorageClass) {word : String} {kind : TypeKind} (type : TypeWord word kind)
    (size : SizePart sizePart n) (spelled : NamePart namePart name) (last : Blanks after) :
    typed? storage (word.toList ++ (sizePart ++ (namePart ++ after))) = some ⟨storage, kind, n, name⟩ := by
  obtain ⟨taken, left⟩ := wordRun (typeLetters type).1 (sizeEnds size (nameEnds spelled last))
  unfold typed?
  rw [taken, left, String.ofList_toList, typeRead.mp type]
  have sized := sizeRead size (nameSkips spelled last)
  simp only [Option.bind_eq_bind, Option.bind_some]
  refine (congrArg (Option.bind · _) sized).trans ?_
  simp only [Option.bind_some, nameRead spelled last]

end Complete

theorem storageRead {classPart : List Char} {storage : StorageClass} (spelled : ClassPart classPart storage)
    {word : String} {kind : TypeKind} (type : TypeWord word kind) {rest : List Char} (ends : Ends rest) :
    written? (String.ofList (classPart ++ (word.toList ++ rest))) = typed? storage (word.toList ++ rest) := by
  have letters := (typeLetters type).1
  unfold written?
  rw [String.toList_ofList]
  cases spelled with
  | absent =>
    obtain ⟨taken, -⟩ := wordRun letters ends
    simp only [List.nil_append, skipWord letters, taken, String.ofList_toList, (typeLetters type).2]
  | @word s _ gap class_ apart =>
    have later : skip (gap ++ (word.toList ++ rest)) = word.toList ++ rest := by
      rw [skipBlanks apart.2, skipWord letters]
    obtain ⟨b, more, rfl, blank, -⟩ := gapHead apart
    have gapEnds : Ends (b :: more ++ (word.toList ++ rest)) := fun d head => by
      cases head
      exact blankNoLetter blank
    obtain ⟨taken, left⟩ := wordRun (classLetters class_) gapEnds
    simp only [List.append_assoc, skipWord (classLetters class_), taken, left, String.ofList_toList,
      classRead.mp class_]
    simp only [List.cons_append, blank, if_true] at later ⊢
    rw [later]

theorem spelledRead {text : List Char} {w : Written} (spelled : Spells text w) :
    written? (String.ofList text) = some w := by
  obtain ⟨blank, storage, type, size, name, last⟩ := spelled
  have ends := sizeEnds size (nameEnds name last)
  refine Eq.trans ?_ ((storageRead storage type ends).trans (typedRead w.storage type size name last))
  unfold written?
  simp only [String.toList_ofList, List.append_assoc, skipBlanks blank]

/-! What is read was spelled. -/

theorem nameFound {cs : List Char} {name : Option String} (read : ending? cs = some name) :
    ∃ namePart after, cs = namePart ++ after ∧ NamePart namePart name ∧ Blanks after := by
  cases cs with
  | nil =>
    cases read
    exact ⟨[], [], rfl, .absent, fun _ => nofun⟩
  | cons b cs =>
    unfold ending? at read
    dsimp only at read
    split at read
    · cases read
    · rename_i blank
      have blank : isBlank b = true := by simpa using blank
      obtain ⟨gap, split_, blanks, -⟩ := skipSplit cs
      have all : Blanks (b :: gap) := List.forall_mem_cons.mpr ⟨blank, blanks⟩
      cases rest : skip cs with
      | nil =>
        simp only [rest] at read
        cases read
        rw [rest, List.append_nil] at split_
        exact ⟨[], b :: gap, by rw [split_]; rfl, .absent, all⟩
      | cons c rest_ =>
        simp only [rest] at read
        split at read
        · rename_i named
          cases read
          simp only [Bool.and_eq_true, List.isEmpty_iff] at named
          obtain ⟨after, same, last, -⟩ := skipSplit (rest_.dropWhile isNameRest)
          rw [named.2, List.append_nil] at same
          refine ⟨b :: gap ++ c :: rest_.takeWhile isNameRest, after, ?_, .name ⟨List.cons_ne_nil _ _, all⟩ ?_, last⟩
          · rw [split_, rest, ← same]
            simp
          · exact ⟨named.1, List.all_eq_true.mp List.all_takeWhile⟩
        · cases read

theorem sizeFound {ds : List Char} {n : Nat} (read : size? ds = some n) :
    ds ≠ [] ∧ 0 < n ∧ n < 2 ^ 64 ∧ n = Nat.ofDigitChars 10 ds 0 := by
  unfold size? at read
  dsimp only at read
  split at read
  · cases read
  · rename_i fits
    cases read
    rw [Number.digitsValueChars] at fits ⊢
    simp only [Bool.or_eq_true, List.isEmpty_iff, beq_iff_eq, decide_eq_true_eq, not_or, Nat.not_le] at fits
    exact ⟨fits.1.1, Nat.pos_of_ne_zero fits.1.2, fits.2, rfl⟩

theorem bracketFound {cs rest : List Char} {n : Nat} {before : List Char} (blank : Blanks before)
    (read : bracket? ('[' :: cs) = some (n, rest)) :
    ∃ sizePart, before ++ '[' :: cs = sizePart ++ rest ∧ SizePart sizePart n := by
  simp only [bracket?] at read
  split at read
  · rename_i tail closed
    obtain ⟨m, value, same⟩ := Option.map_eq_some_iff.mp read
    obtain ⟨inner, first, left, -⟩ := skipSplit cs
    obtain ⟨outer, second, right, -⟩ := skipSplit ((skip cs).dropWhile isDigit)
    obtain ⟨some, positive, fits, rfl⟩ := sizeFound value
    cases same
    have digits : ∀ c ∈ (skip cs).takeWhile isDigit, c.isDigit = true := List.all_eq_true.mp List.all_takeWhile
    refine ⟨_, ?_, .bracket blank left right some digits positive fits⟩
    rw [closed] at second
    have parts : skip cs = (skip cs).takeWhile isDigit ++ (outer ++ ']' :: rest) := by
      rw [← second, List.takeWhile_append_dropWhile]
    conv => lhs; rw [first, parts]
    simp
  · cases read

theorem typedFound {storage : StorageClass} {cs : List Char} {w : Written} (read : typed? storage cs = some w) :
    w.storage = storage ∧ ∃ word sizePart namePart after, cs = word.toList ++ sizePart ++ namePart ++ after ∧
      TypeWord word w.kind ∧ SizePart sizePart w.size ∧ NamePart namePart w.name ∧ Blanks after := by
  simp only [typed?, bind, Option.bind_eq_some_iff] at read
  obtain ⟨kind, type, ⟨size, rest⟩, sized, name, ended, last⟩ := read
  cases last
  obtain ⟨namePart, after, rfl, spelled, blank⟩ := nameFound ended
  have sizeSpelled : ∃ sizePart, cs.dropWhile Char.isAlpha = sizePart ++ (namePart ++ after) ∧ SizePart sizePart size := by
    obtain ⟨gap, split_, blanks, -⟩ := skipSplit (cs.dropWhile Char.isAlpha)
    split at sized
    · rename_i r found
      rw [split_, found]
      exact bracketFound blanks sized
    · rename_i other
      rw [bracketAbsent other] at sized
      obtain ⟨rfl, same⟩ := Prod.mk.inj (Option.some.inj sized)
      exact ⟨[], same, .absent⟩
  obtain ⟨sizePart, left, sizeSpelled⟩ := sizeSpelled
  refine ⟨rfl, _, sizePart, namePart, after, ?_, typeRead.mpr type, sizeSpelled, spelled, blank⟩
  rw [String.toList_ofList, List.append_assoc, List.append_assoc, ← left, List.takeWhile_append_dropWhile]

theorem readSpelled {text : String} {w : Written} (read : written? text = some w) : Spells text.toList w := by
  obtain ⟨before, split_, blank, -⟩ := skipSplit text.toList
  unfold written? at read
  dsimp only at read
  rw [split_]
  generalize skip text.toList = cs at read
  have front := (List.takeWhile_append_dropWhile (p := Char.isAlpha) (l := cs)).symm
  split at read
  · rename_i storage b rest class_ left
    split at read
    · rename_i first
      obtain ⟨rfl, word, sizePart, namePart, after, parts, type, size, name, last⟩ := typedFound read
      obtain ⟨gap, split_, blanks, visible⟩ := skipSplit (cs.dropWhile Char.isAlpha)
      have apart : Gap gap := by
        refine ⟨fun none => ?_, blanks⟩
        rw [none, List.nil_append] at split_
        have seen := visible b rest (split_.symm.trans left)
        simp [first] at seen
      have spelled := Spells.intro blank (.word (classRead.mpr class_) apart) type size name last
      rw [String.toList_ofList] at spelled
      rw [front, split_, parts]
      simpa using spelled
    · cases read
  · cases read
  · obtain ⟨same, word, sizePart, namePart, after, rfl, type, size, name, last⟩ := typedFound read
    have storage : ClassPart [] w.storage := same ▸ .absent
    simpa using Spells.intro blank storage type size name last

theorem writtenSpells (text : String) (w : Written) : written? text = some w ↔ Spells text.toList w := by
  refine ⟨readSpelled, fun spelled => ?_⟩
  have read := spelledRead spelled
  rwa [String.ofList_toList] at read

end SceneStream.Declaration
