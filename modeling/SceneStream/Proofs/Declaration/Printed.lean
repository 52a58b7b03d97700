import SceneStream.Proofs.Declaration.Grammar

/-! Declarations written out, and read again. Any name can be declared, but a token carries only one of letters,
digits and a few signs. -/
namespace SceneStream

namespace Text

theorem dropStops (cs : List Char) : ∀ c ∈ (cs.dropWhile isBlank).head?, isBlank c = false := by
  intro c head
  have stopped := List.head?_dropWhile_not isBlank cs
  rwa [Option.mem_def.mp head] at stopped

theorem dropNothing {cs : List Char} (visible : ∀ c ∈ cs.head?, isBlank c = false) : cs.dropWhile isBlank = cs := by
  cases cs with
  | nil => rfl
  | cons c cs => exact List.dropWhile_cons_of_neg (Bool.eq_false_iff.mp (visible c rfl))

theorem trimTwice (s : String) : trimBlank (trimBlank s) = trimBlank s := by
  unfold trimBlank
  have front := dropStops s.toList
  generalize s.toList.dropWhile isBlank = l at front
  have back := dropStops l.reverse
  obtain ⟨last, split_⟩ := List.dropWhile_suffix (l := l.reverse) isBlank
  generalize l.reverse.dropWhile isBlank = m at back split_
  have start : ∀ c ∈ m.reverse.head?, isBlank c = false := fun c head => by
    have whole : l = m.reverse ++ last.reverse := by rw [← List.reverse_append, split_, List.reverse_reverse]
    refine front c ?_
    rw [whole, List.head?_append, Option.mem_def.mp head]
    rfl
  rw [String.toList_ofList, dropNothing start, List.reverse_reverse, dropNothing back]

end Text

namespace Declaration

/-- As `class type[n]`, for a name that stands elsewhere. -/
def text (d : Declaration) : String := d.storage.name ++ " " ++ d.kind.name ++ "[" ++ toString d.size ++ "]"

/-- As `class type[n] name`. -/
def printed (d : Declaration) : String := d.text ++ " " ++ d.name

theorem classNamed (c : StorageClass) : ClassWord c.name c := by cases c <;> constructor

theorem typeNamed (k : TypeKind) : TypeWord k.name k := by cases k <;> constructor

theorem noBlanks : Blanks [] := fun _ => nofun

theorem oneBlank : Gap [' '] := ⟨List.cons_ne_nil _ _, fun c mem => by rw [List.mem_singleton.mp mem]; rfl⟩

theorem sizePrinted {n : Nat} (positive : 0 < n) (fits : n < 2 ^ 64) :
    SizePart ('[' :: ((toString n).toList ++ [']'])) n := by
  have value : Nat.ofDigitChars 10 (Nat.toDigits 10 n) 0 = n := Nat.ofDigitChars_ten_toDigits
  have some : Nat.toDigits 10 n ≠ [] := fun none => by
    rw [none] at value
    exact absurd value.symm (Nat.ne_of_gt positive)
  have digits : ∀ c ∈ Nat.toDigits 10 n, c.isDigit = true :=
    fun _ member => Nat.isDigit_of_mem_toDigits (by decide) (by decide) member
  have part := SizePart.bracket noBlanks noBlanks noBlanks some digits (by rw [value]; exact positive)
    (by rw [value]; exact fits)
  rw [value] at part
  simpa [Nat.toString_eq_repr, Nat.toList_repr] using part

structure Sized (d : Declaration) : Prop where
  positive : 0 < d.size
  fits : d.size < 2 ^ 64

section Printed
variable {d : Declaration}

theorem textSpells (sized : Sized d) : Spells d.text.toList ⟨d.storage, d.kind, d.size, none⟩ := by
  have spells := Spells.intro (w := ⟨d.storage, d.kind, d.size, none⟩) noBlanks (.word (classNamed d.storage) oneBlank)
    (typeNamed d.kind) (sizePrinted sized.positive sized.fits) .absent noBlanks
  simpa [text] using spells

theorem printedSpells (sized : Sized d) (name : IsName d.name.toList) :
    Spells d.printed.toList ⟨d.storage, d.kind, d.size, some d.name⟩ := by
  have part := NamePart.name oneBlank name
  rw [String.ofList_toList] at part
  have spells := Spells.intro (w := ⟨d.storage, d.kind, d.size, some d.name⟩) noBlanks
    (.word (classNamed d.storage) oneBlank) (typeNamed d.kind) (sizePrinted sized.positive sized.fits) part noBlanks
  simpa [printed, text] using spells

theorem spelledSized {cs : List Char} {w : Written} (spells : Spells cs w) : 0 < w.size ∧ w.size < 2 ^ 64 := by
  obtain ⟨-, -, -, size, -, -⟩ := spells
  generalize w.size = n at size ⊢
  cases size with
  | absent => decide
  | bracket _ _ _ _ _ positive fits => exact ⟨positive, fits⟩

theorem spelledName {cs : List Char} {w : Written} (spells : Spells cs w) {name : String} (named : w.name = some name) :
    IsName name.toList := by
  obtain ⟨-, -, -, -, spelled, -⟩ := spells
  rw [named] at spelled
  cases spelled with
  | name apart name => rwa [String.toList_ofList]

/-! What tokens and declarations are read as. -/

theorem tokenExact (token : String) (d : Declaration) : ofToken? token = some d ↔
    ∃ w name, Spells token.toList w ∧ w.name = some name ∧ d = ⟨name, w.storage, w.kind, w.size, true⟩ := by
  simp only [ofToken?, bind, Option.bind_eq_some_iff, writtenSpells, Option.some.injEq]
  constructor
  · rintro ⟨w, spells, name, named, rfl⟩
    exact ⟨w, name, spells, named, rfl⟩
  · rintro ⟨w, name, spells, named, rfl⟩
    exact ⟨w, spells, name, named, rfl⟩

theorem textNamed {name : String} (some : Text.trimBlank name ≠ "") (text : String) : ofText name text =
    match written? text with
    | none => .error (.of .syntaxFault s!"invalid declaration \"{text}\" for \"{Text.trimBlank name}\"")
    | .some w => if w.name.isSome then
        .error (.of .syntaxFault s!"declaration \"{text}\" for \"{Text.trimBlank name}\" carries its own name")
      else .ok ⟨Text.trimBlank name, w.storage, w.kind, w.size, false⟩ := by
  have nonempty : (Text.trimBlank name).isEmpty = false := by simpa using some
  unfold ofText
  dsimp only
  rw [nonempty]
  exact if_neg Bool.false_ne_true

theorem textExact {name : String} (some : Text.trimBlank name ≠ "") (text : String) (d : Declaration) :
    ofText name text = .ok d ↔ ∃ w, Spells text.toList w ∧ w.name = none ∧
      d = ⟨Text.trimBlank name, w.storage, w.kind, w.size, false⟩ := by
  rw [textNamed some]
  constructor
  · intro read
    split at read
    · cases read
    · rename_i w written
      split at read
      · cases read
      · rename_i nameless
        cases read
        exact ⟨w, (writtenSpells text w).mp written, by simpa using nameless, rfl⟩
  · rintro ⟨w, spells, nameless, rfl⟩
    simp [(writtenSpells text w).mpr spells, nameless]

theorem textCarriesName {name : String} (some : Text.trimBlank name ≠ "") {text : String} {w : Written} {own : String}
    (spells : Spells text.toList w) (named : w.name = .some own) : ofText name text =
      .error (.of .syntaxFault s!"declaration \"{text}\" for \"{Text.trimBlank name}\" carries its own name") := by
  rw [textNamed some, (writtenSpells text w).mpr spells]
  simp [named]

theorem printedRead (sized : Sized d) :
    ofToken? d.printed = some { d with isInline := true } ↔ IsName d.name.toList := by
  rw [tokenExact]
  constructor
  · rintro ⟨w, name, spells, named, same⟩
    have carried : d.name = name := congrArg Declaration.name same
    rw [carried]
    exact spelledName spells named
  · intro name
    exact ⟨_, _, printedSpells sized name, rfl, rfl⟩

theorem textRead {name text : String} (read : ofText name text = .ok d) :
    Sized d ∧ ofText d.name d.text = .ok d := by
  have some : Text.trimBlank name ≠ "" := fun none => by simp [ofText, none] at read
  obtain ⟨w, spells, -, rfl⟩ := (textExact some text d).mp read
  obtain ⟨positive, fits⟩ := spelledSized spells
  have sized : Sized ⟨Text.trimBlank name, w.storage, w.kind, w.size, false⟩ := ⟨positive, fits⟩
  refine ⟨sized, (textExact (by rwa [Text.trimTwice]) _ _).mpr ⟨_, textSpells sized, rfl, ?_⟩⟩
  simp only [Text.trimTwice]

end Printed

/-- A token is a declaration when it spells one with a name. The text of a name that is declared spells one without;
one with a name is refused. A declaration from a token is what its printed form reads as; one from a name and a text
is what its text reads as under its name, and its printed form reads as it only if a token can carry the name. -/
theorem declarationsExact :
    (∀ token d, ofToken? token = some d ↔
      ∃ w name, Spells token.toList w ∧ w.name = some name ∧ d = ⟨name, w.storage, w.kind, w.size, true⟩) ∧
    (∀ name text, Text.trimBlank name ≠ "" →
      (∀ d, ofText name text = .ok d ↔ ∃ w, Spells text.toList w ∧ w.name = none ∧
        d = ⟨Text.trimBlank name, w.storage, w.kind, w.size, false⟩) ∧
      ∀ w own, Spells text.toList w → w.name = some own → ofText name text = .error (.of .syntaxFault
        s!"declaration \"{text}\" for \"{Text.trimBlank name}\" carries its own name")) ∧
    (∀ token d, ofToken? token = some d → ofToken? d.printed = some d) ∧
    ∀ name text d, ofText name text = .ok d → ofText d.name d.text = .ok d ∧
      (ofToken? d.printed = some { d with isInline := true } ↔ IsName d.name.toList) := by
  refine ⟨tokenExact, fun name text some => ⟨textExact some text, fun w own spells => textCarriesName some spells⟩,
    fun token d read => ?_, fun name text d read => ?_⟩
  · obtain ⟨w, name, spells, named, rfl⟩ := (tokenExact token d).mp read
    obtain ⟨positive, fits⟩ := spelledSized spells
    exact (printedRead ⟨positive, fits⟩).mpr (spelledName spells named)
  · obtain ⟨sized, again⟩ := textRead read
    exact ⟨again, printedRead sized⟩

/-- A name with a blank in it can be declared, and its printed form is no declaration. -/
theorem spacedNameLost : ofText "a b" "uniform float" = .ok ⟨"a b", .uniform, .float, 1, false⟩ ∧
    ofToken? (printed ⟨"a b", .uniform, .float, 1, false⟩) = none :=
  ⟨rfl, rfl⟩

end Declaration
end SceneStream
