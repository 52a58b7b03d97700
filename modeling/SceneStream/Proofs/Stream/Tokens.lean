import SceneStream.Proofs.Stream.Item
import SceneStream.Stream.Encoding

/-! Entries as tokens. Whatever stands before them, the tokens of an entry are decoded as that entry and
leave nothing open. -/
namespace SceneStream.Stream

structure CommentWritable (c : Comment) : Prop where
  oneLine : '\n' ∉ c.text.toList
  noReturn : c.text.toList.getLast? ≠ some '\r'
  unmarked : c.structured = false → c.text.toList.head? ≠ some '#'

def ValuesWritable : Encoding → Values → Prop
  | .text, .floats l => ∀ x ∈ l, x.isFinite = true
  | .binary, .floats l => l.length < 2 ^ 32
  | .binary, .strings l => ∀ s ∈ l, (bytesOf s).length < 2 ^ 32
  | _, _ => True

structure ParamWritable (e : Encoding) (p : Parameter) : Prop where
  lone : p.isArray = false → p.values.length = 1
  empty : p.values.length = 0 → p.values = .floats []
  source : p.source = p.values.basic
  values : ValuesWritable e p.values

def EntryWritable (e : Encoding) : Entry → Prop
  | .request r => ∀ p ∈ r.params, ParamWritable e p
  | .comment c => CommentWritable c

instance (c : Comment) : Decidable (CommentWritable c) :=
  decidable_of_iff ('\n' ∉ c.text.toList ∧ c.text.toList.getLast? ≠ some '\r' ∧
      (c.structured = false → c.text.toList.head? ≠ some '#'))
    ⟨fun ⟨line, last, first⟩ => ⟨line, last, first⟩, fun w => ⟨w.oneLine, w.noReturn, w.unmarked⟩⟩

instance : (e : Encoding) → (v : Values) → Decidable (ValuesWritable e v)
  | .text, .floats l => inferInstanceAs (Decidable (∀ x ∈ l, x.isFinite = true))
  | .binary, .floats l => inferInstanceAs (Decidable (l.length < 2 ^ 32))
  | .binary, .strings l => inferInstanceAs (Decidable (∀ s ∈ l, (bytesOf s).length < 2 ^ 32))
  | .text, .integers _ | .text, .strings _ | .binary, .integers _ => inferInstanceAs (Decidable True)

instance (e : Encoding) (p : Parameter) : Decidable (ParamWritable e p) :=
  decidable_of_iff ((p.isArray = false → p.values.length = 1) ∧
      (p.values.length = 0 → p.values = .floats []) ∧ p.source = p.values.basic ∧
      ValuesWritable e p.values)
    ⟨fun ⟨lone, empty, source, values⟩ => ⟨lone, empty, source, values⟩,
      fun w => ⟨w.lone, w.empty, w.source, w.values⟩⟩

instance (e : Encoding) : (x : Entry) → Decidable (EntryWritable e x)
  | .request r => inferInstanceAs (Decidable (∀ p ∈ r.params, ParamWritable e p))
  | .comment c => inferInstanceAs (Decidable (CommentWritable c))

def valueTokens : Values → List Token
  | .integers l => l.map .integer
  | .floats l => l.map .float
  | .strings l => l.map .string

def paramTokens (e : Encoding) (p : Parameter) : List Token :=
  if p.isArray then
    match e, p.values with
    | .binary, .floats l => [.floats l]
    | _, v => .opening :: valueTokens v ++ [.closing]
  else valueTokens p.values

def entryTokens (e : Encoding) : Entry → List Token
  | .request r => .name r.kind.name :: r.params.flatMap (paramTokens e)
  | .comment c => [.comment c.text c.structured]

/-! What comes back. A parameter has the type of its values, and one carriage return at the end of a
comment is taken for a part of its newline. -/

def Parameter.settled (p : Parameter) : Parameter := .of p.values p.isArray

def Entry.rewritten : Entry → Entry
  | .request r => .request { r with line := 0, params := r.params.map Parameter.settled }
  | .comment c => .comment ⟨withoutReturn c.text, c.structured, 0⟩

structure CommentWhole (c : Comment) : Prop where
  oneLine : '\n' ∉ c.text.toList
  unmarked : c.structured = false → c.text.toList.head? ≠ some '#'

theorem settledTokens (e : Encoding) (ps : List Parameter) :
    (ps.map Parameter.settled).flatMap (paramTokens e) = ps.flatMap (paramTokens e) := by
  rw [List.flatMap_map]
  rfl

/-! Parameters. -/

structure Elements {α : Type} (make : List α → Values) (token : α → Token) : Prop where
  added : ∀ d x line, Draft.add d ⟨token x, line⟩ = d.value (make [x]) false
  joined : ∀ x l, Collector.join? (make [x]) (make l) = some (make (x :: l))
  reversed : ∀ l, (make l).reverse = make l.reverse
  alike : ∀ l l', (make l).basic = (make l').basic

theorem integerElements : Elements Values.integers Token.integer :=
  ⟨fun _ _ _ => rfl, fun _ _ => rfl, fun _ => rfl, fun _ _ => rfl⟩

theorem floatElements : Elements Values.floats Token.float :=
  ⟨fun _ _ _ => rfl, fun _ _ => rfl, fun _ => rfl, fun _ _ => rfl⟩

theorem stringElements : Elements Values.strings Token.string :=
  ⟨fun _ _ _ => rfl, fun _ _ => rfl, fun _ => rfl, fun _ _ => rfl⟩

section
variable {α : Type} {make : List α → Values} {token : α → Token}

theorem elementsJoin (elements : Elements make token) {xs : List Lexeme} {l done : List α} {d : Draft}
    {source : BasicType} {line : Nat} (tokens : xs.map Lexeme.token = l.map token)
    (opened : d.array = some ⟨some (make done, source), line⟩) :
    xs.foldl Draft.add d = { d with array := some ⟨some (make (l.reverse ++ done), source), line⟩ } := by
  induction l generalizing xs done d with
  | nil =>
    cases List.map_eq_nil_iff.mp tokens
    cases d
    cases opened
    rfl
  | cons x l ih =>
    obtain ⟨lexeme, xs, rfl, first, others⟩ := List.map_eq_cons_iff.mp tokens
    obtain ⟨t, start⟩ := lexeme
    cases first
    have pushed : Collector.push ⟨some (make done, source), line⟩ (make [x]) =
        (⟨some (make (x :: done), source), line⟩, none) := by
      simp only [Collector.push, elements.reversed, List.reverse_singleton, elements.joined]
    have step : d.add ⟨token x, start⟩ =
        { d with array := some ⟨some (make (x :: done), source), line⟩ } := by
      rw [elements.added]
      simp only [Draft.value, opened, pushed]
    rw [List.foldl_cons, step, ih others rfl, List.reverse_cons, List.append_assoc,
      List.singleton_append]

theorem elementsArray (elements : Elements make token) {xs : List Lexeme} {l : List α} {d : Draft}
    (tokens : xs.map Lexeme.token = .opening :: l.map token ++ [.closing])
    (empty : l = [] → make l = .floats []) (closed : d.array = none) :
    xs.foldl Draft.add d = { d with params := .of (make l) true :: d.params } := by
  obtain ⟨front, ends, rfl, before, last⟩ := List.map_eq_append_iff.mp tokens
  obtain ⟨⟨t, line⟩, inside, rfl, first, inner⟩ := List.map_eq_cons_iff.mp before
  obtain ⟨⟨t', line'⟩, rfl, last⟩ := List.map_eq_singleton_iff.mp last
  cases first
  cases last
  have opened : d.add ⟨.opening, line⟩ = { d with array := some (.start line) } := by
    simp only [Draft.add, Draft.opening, closed]
  rw [List.foldl_append, List.foldl_cons, List.foldl_nil, List.foldl_cons, opened]
  cases l with
  | nil =>
    cases List.map_eq_nil_iff.mp inner
    rw [empty rfl]
    cases d
    cases closed
    rfl
  | cons x l =>
    obtain ⟨⟨t, start⟩, later, rfl, first, others⟩ := List.map_eq_cons_iff.mp inner
    cases first
    have step : Draft.add { d with array := some (.start line) } ⟨token x, start⟩ =
        { d with array := some ⟨some (make [x], (make [x]).basic), line⟩ } := by
      rw [elements.added]
      simp only [Draft.value, Collector.push, Collector.start, elements.reversed, List.reverse_singleton]
    rw [List.foldl_cons, step, elementsJoin elements others rfl]
    have order : (make (l.reverse ++ [x])).reverse = make (x :: l) := by
      simp only [elements.reversed, List.reverse_append, List.reverse_reverse, List.reverse_singleton,
        List.singleton_append]
    have same : (make [x]).basic = (make (x :: l)).basic := elements.alike ..
    cases d
    cases closed
    simp only [Draft.add, Draft.closing, Collector.finish, order, same, Parameter.of]

theorem elementsLone (elements : Elements make token) {xs : List Lexeme} {x : α} {d : Draft}
    (tokens : xs.map Lexeme.token = [token x]) (closed : d.array = none) :
    xs.foldl Draft.add d = { d with params := .of (make [x]) false :: d.params } := by
  obtain ⟨⟨t, line⟩, rfl, last⟩ := List.map_eq_singleton_iff.mp tokens
  cases last
  rw [List.foldl_cons, elements.added]
  simp only [Draft.value, closed, List.foldl_nil]

end

theorem paramTaken {e : Encoding} {p : Parameter} (writable : ParamWritable e p) {xs : List Lexeme}
    (tokens : xs.map Lexeme.token = paramTokens e p) {d : Draft} (closed : d.array = none) :
    xs.foldl Draft.add d = { d with params := p :: d.params } := by
  obtain ⟨values, isArray, source⟩ := p
  obtain ⟨lone, empty, same, -⟩ := writable
  dsimp only at lone empty same
  subst same
  unfold paramTokens at tokens
  cases isArray with
  | true =>
    cases values with
    | integers l =>
      have none : l = [] → Values.integers l = .floats [] := fun same => empty (by simp [Values.length, same])
      cases e <;> exact elementsArray integerElements tokens none closed
    | strings l =>
      have none : l = [] → Values.strings l = .floats [] := fun same => empty (by simp [Values.length, same])
      cases e <;> exact elementsArray stringElements tokens none closed
    | floats l =>
      cases e with
      | text => exact elementsArray floatElements tokens (fun same => by rw [same]) closed
      | binary =>
        obtain ⟨⟨t, line⟩, rfl, last⟩ := List.map_eq_singleton_iff.mp tokens
        cases last
        simp only [List.foldl_cons, List.foldl_nil, Draft.add, Draft.value, closed, Parameter.of]
  | false =>
    have one := lone rfl
    cases values with
    | integers l =>
      obtain ⟨x, rfl⟩ := List.length_eq_one_iff.mp one
      exact elementsLone integerElements tokens closed
    | floats l =>
      obtain ⟨x, rfl⟩ := List.length_eq_one_iff.mp one
      exact elementsLone floatElements tokens closed
    | strings l =>
      obtain ⟨x, rfl⟩ := List.length_eq_one_iff.mp one
      exact elementsLone stringElements tokens closed

/-! Entries. -/

def Entry.unplaced : Entry → Entry
  | .request r => .request { r with line := 0 }
  | .comment c => .comment { c with line := 0 }

def Item.unplaced (x : Item) : Item := x.map Entry.unplaced

inductive Clean : Phase → Prop where
  | idle : Clean .idle
  | drafting {d : Draft} (closed : d.array = none) (sound : d.problems = []) : Clean (.drafting d)

theorem finishClean {d : Draft} (closed : d.array = none) (sound : d.problems = []) :
    d.finish = request ⟨d.kind, d.line, d.params.reverse⟩ :: d.comments.reverse.map remark := by
  simp [Draft.finish, Draft.allProblems, closed, sound]

theorem paramsTaken {e : Encoding} {ps : List Parameter} (writable : ∀ p ∈ ps, ParamWritable e p)
    {xs : List Lexeme} (tokens : xs.map Lexeme.token = ps.flatMap (paramTokens e)) {d : Draft}
    (closed : d.array = none) :
    xs.foldl Draft.add d = { d with params := ps.reverse ++ d.params } := by
  induction ps generalizing xs d with
  | nil =>
    cases List.map_eq_nil_iff.mp tokens
    rfl
  | cons p ps ih =>
    obtain ⟨own, others, rfl, first, later⟩ := List.map_eq_append_iff.mp tokens
    rw [List.foldl_append, paramTaken (writable p (by simp)) first closed,
      ih (fun q member => writable q (by simp [member])) later (d := { d with params := p :: d.params })
        closed, List.reverse_cons, List.append_assoc, List.singleton_append]

theorem paramNameless (e : Encoding) (p : Parameter) (s : String) : .name s ∉ paramTokens e p := by
  have values : ∀ v : Values, .name s ∉ valueTokens v := by
    intro v
    cases v <;> simp [valueTokens]
  unfold paramTokens
  split
  · split
    · simp
    · simp [values]
  · exact values p.values

theorem requestTaken {e : Encoding} {r : Request} (writable : ∀ p ∈ r.params, ParamWritable e p)
    {xs : List Lexeme} (tokens : xs.map Lexeme.token = r.params.flatMap (paramTokens e)) (line : Nat)
    (rest : List Result) : itemsRun (.enter r.kind.name line) (xs.map .ok ++ rest) =
      itemsRun (.drafting { Draft.start r.kind line with params := r.params.reverse }) rest := by
  have nameless : ∀ x ∈ xs.map (Except.ok (ε := Problem)), name? x = none := by
    intro x member
    obtain ⟨⟨t, at_⟩, inside, rfl⟩ := List.mem_map.mp member
    cases t with
    | name s =>
      have there : .name s ∈ r.params.flatMap (paramTokens e) :=
        tokens ▸ List.mem_map_of_mem inside
      obtain ⟨p, -, own⟩ := List.mem_flatMap.mp there
      exact absurd own (paramNameless e p s)
    | _ => rfl
  have sound : ∀ p, .error p ∈ xs.map (Except.ok (ε := Problem)) → Recoverable p := by
    intro p member
    obtain ⟨l, -, same⟩ := List.mem_map.mp member
    contradiction
  have gathered : (xs.map (Except.ok (ε := Problem))).foldl Draft.gather (.start r.kind line) =
      { Draft.start r.kind line with params := r.params.reverse } := by
    rw [List.foldl_map]
    exact (paramsTaken writable tokens rfl).trans (by simp [Draft.start])
  unfold Phase.enter
  rw [RequestKind.ofNameName]
  dsimp only
  rw [draftingRun nameless sound, gathered]

/-- Lexemes take the items from one phase to another, and what has come by then is these entries. -/
structure Delivers (xs : List Lexeme) (entries : List Entry) (phase phase' : Phase) (out : List Item) : Prop where
  clean : Clean phase'
  run : ∀ rest, itemsRun phase (xs.map .ok ++ rest) = out ++ itemsRun phase' rest
  items : (out ++ phase'.finish).map Item.unplaced =
    phase.finish.map Item.unplaced ++ entries.map fun x => .ok (Entry.unplaced x)

theorem entryTaken {e : Encoding} {x : Entry}
    (writable : ∀ r, x = .request r → ∀ p ∈ r.params, ParamWritable e p) {xs : List Lexeme}
    (tokens : xs.map Lexeme.token = entryTokens e x) {phase : Phase} (clean : Clean phase) :
    ∃ phase' out, Delivers xs [x] phase phase' out := by
  cases x with
  | request r =>
    obtain ⟨⟨t, line⟩, body, rfl, first, others⟩ := List.map_eq_cons_iff.mp tokens
    cases first
    have taken := requestTaken (writable r rfl) others line
    refine ⟨.drafting { Draft.start r.kind line with params := r.params.reverse }, phase.finish,
      .drafting rfl rfl, fun rest => ?_, ?_⟩
    · rw [← taken]
      cases clean with
      | idle => rfl
      | drafting closed sound => exact draftingName _ _ line _
    · rw [List.map_append]
      congr 1
      rw [Phase.finish, finishClean rfl rfl]
      simp [Draft.start, request, Item.unplaced, Entry.unplaced, Except.map]
  | comment c =>
    obtain ⟨⟨t, line⟩, rfl, last⟩ := List.map_eq_singleton_iff.mp tokens
    cases last
    cases clean with
    | idle => exact ⟨.idle, [remark ⟨c.text, c.structured, line⟩], .idle, fun rest => rfl, rfl⟩
    | @drafting d closed sound =>
      refine ⟨.drafting { d with comments := ⟨c.text, c.structured, line⟩ :: d.comments }, [],
        .drafting closed sound, fun rest => rfl, ?_⟩
      have after := finishClean
        (d := { d with comments := ⟨c.text, c.structured, line⟩ :: d.comments }) closed sound
      rw [Phase.finish, Phase.finish, finishClean closed sound, after]
      simp [remark, Item.unplaced, Entry.unplaced, Except.map]

end SceneStream.Stream
