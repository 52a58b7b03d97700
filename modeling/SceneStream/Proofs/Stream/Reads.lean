import SceneStream.Proofs.Stream.Lexeme

/-! Pieces of a stream and what they are read as. A piece stands before a rest, and once it is read the
lexer is at that rest with no definition waiting; so pieces are put together one after the other. -/
namespace SceneStream.Stream

abbrev Known := List (Slot × String)

def Spells (bytes rest : Bytes) (e : Element) : Prop :=
  ∀ line, ∃ line' cut, scan? ⟨bytes ++ rest, line⟩ = some ⟨e, line, ⟨rest, line'⟩, cut⟩

/-- Bytes that are some tokens where `rest` comes after them, with the short forms known before and
after. -/
def Reads (known : Known) (bytes rest : Bytes) (tokens : List Token) (known' : Known) : Prop :=
  ∀ last line, ∃ (lexemes : List Lexeme) (line' : Nat), lexemes.map Lexeme.token = tokens ∧
    (lexedFrom last ⟨known, []⟩ ⟨bytes ++ rest, line⟩).map Lexed.result =
      lexemes.map .ok ++ (lexedFrom last ⟨known', []⟩ ⟨rest, line'⟩).map Lexed.result

variable {known known' known'' : Known} {a b rest : Bytes} {ts us : List Token}

theorem readsNothing (known : Known) (rest : Bytes) : Reads known [] rest [] known :=
  fun _ line => ⟨[], line, rfl, rfl⟩

theorem readsAppend (first : Reads known a (b ++ rest) ts known')
    (second : Reads known' b rest us known'') : Reads known (a ++ b) rest (ts ++ us) known'' := by
  intro last line
  obtain ⟨xs, between, tokens, read⟩ := first last line
  obtain ⟨ys, after, tokens', read'⟩ := second last between
  refine ⟨xs ++ ys, after, by rw [List.map_append, tokens, tokens'], ?_⟩
  rw [List.append_assoc, read, read', List.map_append, List.append_assoc]

theorem readsSilent (first : Reads known a (b ++ rest) [] known')
    (second : Reads known' b rest us known'') : Reads known (a ++ b) rest us known'' :=
  readsAppend first second

theorem readsToken {t : Token} (spells : Spells a rest (.token t)) : Reads known a rest [t] known := by
  intro last line
  obtain ⟨after, cut, found⟩ := spells line
  refine ⟨[⟨t, line⟩], after, rfl, ?_⟩
  rw [lexedFromNext found rfl]
  rfl

theorem readsFirst {t : Token} (spells : Spells a (b ++ rest) (.token t))
    (later : Reads known b rest ts known') : Reads known (a ++ b) rest (t :: ts) known' :=
  readsAppend (readsToken spells) later

theorem readsRecall {slot : Slot} {s : String} (spells : Spells a rest (.recall slot))
    (there : known.lookup slot = some s) :
    Reads known a rest [Definitions.Slot.token slot s] known := by
  intro last line
  obtain ⟨after, cut, found⟩ := spells line
  refine ⟨[⟨Definitions.Slot.token slot s, line⟩], after, rfl, ?_⟩
  have given : Definitions.step ⟨known, []⟩ ⟨.recall slot, line, ⟨rest, after⟩, cut⟩ =
      (⟨known, []⟩, some (.ok ⟨Definitions.Slot.token slot s, line⟩)) := by
    simp [Definitions.step, there, Definitions.accept]
  rw [lexedFromNext found given]
  rfl

theorem readsDefine {slot : Slot} {s : String} (head : Spells a (b ++ rest) (.define slot))
    (body : Spells b rest (.token (.string s))) :
    Reads known (a ++ b) rest [] ((slot, s) :: known) := by
  intro last line
  obtain ⟨between, cut, found⟩ := head line
  obtain ⟨after, cut', found'⟩ := body between
  refine ⟨[], after, rfl, ?_⟩
  rw [List.append_assoc, lexedFromSilent found rfl, lexedFromSilent found' rfl]
  rfl

/-! Blanks. -/

theorem scanBlank {blank : UInt8} (isBlank : isBlank blank = true) (rest : Bytes) (line : Nat) :
    ∃ line', scan? ⟨blank :: rest, line⟩ = scan? ⟨rest, line'⟩ := by
  refine ⟨line + newlines [blank], ?_⟩
  have text : Cursor.textWhile Stream.isBlank ⟨blank :: rest, line⟩ =
      (blank :: rest.takeWhile Stream.isBlank,
        ⟨rest.dropWhile Stream.isBlank,
          line + newlines [blank] + newlines (rest.takeWhile Stream.isBlank)⟩) := by
    simp only [Cursor.textWhile, List.takeWhile_cons, List.dropWhile_cons, isBlank, if_true,
      newlines, List.count_cons, List.count_nil]
    congr 2
    omega
  unfold scan?
  rw [text]
  rfl

theorem lexedFromSame (last : Nat) (d : Definitions) {c c' : Cursor} (same : scan? c = scan? c') :
    lexedFrom last d c = lexedFrom last d c' := by
  unfold lexedFrom
  rw [scansFromStep, scansFromStep c', same]

theorem readsBlank {blank : UInt8} (isBlank : isBlank blank = true) :
    Reads known [blank] rest [] known := by
  intro last line
  obtain ⟨after, same⟩ := scanBlank isBlank rest line
  exact ⟨[], after, rfl, by rw [List.singleton_append, lexedFromSame last _ same]; rfl⟩

theorem readsAfterBlank {blank : UInt8} (isBlank : isBlank blank = true)
    (later : Reads known a rest ts known') : Reads known (blank :: a) rest ts known' :=
  readsSilent (readsBlank isBlank) later

/-! Visible bytes. -/

theorem scanVisible {b : UInt8} (visible : isBlank b = false) (rest : Bytes) (line : Nat) :
    scan? ⟨b :: rest, line⟩ = some ⟨(elementAt b ⟨rest, line⟩).1, line,
      (elementAt b ⟨rest, line⟩).2.1, (elementAt b ⟨rest, line⟩).2.2⟩ := by
  have text : Cursor.textWhile isBlank ⟨b :: rest, line⟩ = ([], ⟨b :: rest, line⟩) := by
    simp [Cursor.textWhile, visible, newlines]
  unfold scan?
  rw [text]

theorem spellsElement {b : UInt8} {tail : Bytes} {e : Element} (visible : isBlank b = false)
    (element : ∀ line, ∃ line' cut, elementAt b ⟨tail ++ rest, line⟩ = (e, ⟨rest, line'⟩, cut)) :
    Spells (b :: tail) rest e := by
  intro line
  obtain ⟨after, cut, same⟩ := element line
  refine ⟨after, cut, ?_⟩
  rw [List.cons_append, scanVisible visible, same]

end SceneStream.Stream
