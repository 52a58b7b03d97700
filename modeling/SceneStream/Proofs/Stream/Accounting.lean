import SceneStream.Proofs.Stream.Item

/-! The results of the lexer, cut before each name, against the items that are decoded from them. Every
group is accounted for by items of its own, so that nothing is lost, doubled or moved. -/
namespace SceneStream.Stream

/-! What a request's own results give. -/

def Token.values? : Token → Option (Values × Bool)
  | .integer n => some (.integers [n], false)
  | .float x => some (.floats [x], false)
  | .string s => some (.strings [s], false)
  | .floats l => some (.floats l, true)
  | _ => none

structure Taken where
  array : Option Collector
  parameter : Option Parameter
  problem : Option Problem

def nestedArray (line : Nat) : Problem := (Problem.of .badArray "nested array opened").atLine line
def unmatchedEnd (line : Nat) : Problem := (Problem.of .badArray "unmatched ']'").atLine line
def unclosedArray (c : Collector) : Problem :=
  (Problem.of .badArray "array is not closed").atLine c.line

def taken : Option Collector → Result → Taken
  | a, .error p => ⟨a, none, some p⟩
  | none, .ok l => match l.token with
    | .opening => ⟨some (.start l.line), none, none⟩
    | .closing => ⟨none, none, some (unmatchedEnd l.line)⟩
    | t => ⟨none, t.values?.map fun v => .of v.1 v.2, none⟩
  | some c, .ok l => match l.token with
    | .opening => ⟨some c, none, some (nestedArray l.line)⟩
    | .closing => ⟨none, some c.finish, none⟩
    | t => match t.values? with
      | some v => ⟨some (c.push v.1).1, none, (c.push v.1).2⟩
      | none => ⟨some c, none, none⟩

def parametersOf : Option Collector → List Result → List Parameter
  | _, [] => []
  | a, x :: rest => (taken a x).parameter.toList ++ parametersOf (taken a x).array rest

def problemsOf : Option Collector → List Result → List Problem
  | a, [] => (a.map unclosedArray).toList
  | a, x :: rest => (taken a x).problem.toList ++ problemsOf (taken a x).array rest

def lexedComment? : Result → Option Comment
  | .ok ⟨.comment text structured, line⟩ => some ⟨text, structured, line⟩
  | _ => none

theorem gatherTaken (d : Draft) {x : Result} (nameless : name? x = none) :
    d.gather x = { d with
      params := (taken d.array x).parameter.toList ++ d.params
      problems := (taken d.array x).problem.toList ++ d.problems
      comments := (lexedComment? x).toList ++ d.comments
      array := (taken d.array x).array } := by
  obtain ⟨kind, line, params, problems, comments, array⟩ := d
  cases x with
  | error p => cases array <;> rfl
  | ok l =>
    obtain ⟨token, start⟩ := l
    cases array with
    | none => cases token <;> rfl
    | some c =>
      -- A value inside an array may be refused by it.
      have pushed : ∀ (v : Values) (isArray : Bool),
          Draft.value ⟨kind, line, params, problems, comments, some c⟩ v isArray =
            ⟨kind, line, params, (c.push v).2.toList ++ problems, comments, some (c.push v).1⟩ := by
        intro v isArray
        unfold Draft.value
        cases h : c.push v with
        | mk c p => cases p <;> simp [h]
      cases token <;> first | rfl | contradiction | exact pushed _ false

theorem toListReverse {α : Type} (o : Option α) : o.toList.reverse = o.toList := by
  cases o <;> rfl

theorem gathered (d : Draft) {body : List Result} (nameless : ∀ x ∈ body, name? x = none) :
    (body.foldl Draft.gather d).params.reverse = d.params.reverse ++ parametersOf d.array body ∧
    (body.foldl Draft.gather d).allProblems = d.problems.reverse ++ problemsOf d.array body ∧
    (body.foldl Draft.gather d).comments.reverse =
      d.comments.reverse ++ body.filterMap lexedComment? ∧
    (body.foldl Draft.gather d).kind = d.kind ∧ (body.foldl Draft.gather d).line = d.line := by
  induction body generalizing d with
  | nil =>
    refine ⟨by simp [parametersOf], ?_, by simp, rfl, rfl⟩
    unfold Draft.allProblems
    cases same : d.array <;> simp [problemsOf, unclosedArray, same]
  | cons x body ih =>
    obtain ⟨params, problems, comments, kind, line⟩ :=
      ih (d.gather x) fun y member => nameless y (by simp [member])
    rw [gatherTaken d (nameless x (by simp))] at params problems comments kind line
    simp only [List.foldl_cons]
    rw [gatherTaken d (nameless x (by simp))]
    refine ⟨?_, ?_, ?_, kind, line⟩
    · simpa [parametersOf, toListReverse] using params
    · simpa [problemsOf, toListReverse] using problems
    · rw [comments, List.filterMap_cons]
      cases lexedComment? x <;> simp

/-! Groups. -/

structure Group where
  name : String
  line : Nat
  body : List Result

def Group.results (g : Group) : List Result := .ok ⟨.name g.name, g.line⟩ :: g.body

def groups : List Result → List Result × List Group
  | [] => ([], [])
  | x :: rest => match name? x with
    | some (s, line) => ([], ⟨s, line, (groups rest).1⟩ :: (groups rest).2)
    | none => (x :: (groups rest).1, (groups rest).2)

def passed? : Result → Option Item
  | .error p => some (.error p)
  | .ok ⟨.comment text structured, line⟩ => some (remark ⟨text, structured, line⟩)
  | _ => none

/-- The items before the first name: a value is reported, unless something was before it. -/
def leading : List Result → List Item
  | [] => []
  | x :: rest => match x with
    | .error p => .error p :: rest.filterMap passed?
    | .ok ⟨.comment text structured, line⟩ => remark ⟨text, structured, line⟩ :: leading rest
    | .ok l => .error (strayValue l.line) :: rest.filterMap passed?

def Group.items (g : Group) : List Item :=
  match RequestKind.ofName? g.name with
  | some kind =>
    (match problemsOf none g.body with
      | [] => [request ⟨kind, g.line, parametersOf none g.body⟩]
      | problems => problems.map .error) ++ (g.body.filterMap lexedComment?).map remark
  | none => .error (unknownRequest g.name g.line) :: g.body.filterMap passed?

theorem groupsJoin (xs : List Result) :
    (groups xs).1 ++ (groups xs).2.flatMap Group.results = xs := by
  induction xs with
  | nil => rfl
  | cons x xs ih =>
    unfold groups
    split
    · rename_i s line named
      have same : x = .ok ⟨.name s, line⟩ := by
        unfold name? at named
        split at named
        · cases named
          rfl
        · contradiction
      simp [Group.results, ih, same]
    · simp [ih]

theorem groupsNameless (xs : List Result) :
    (∀ x ∈ (groups xs).1, name? x = none) ∧
    ∀ g ∈ (groups xs).2, ∀ x ∈ g.body, name? x = none := by
  induction xs with
  | nil => simp [groups]
  | cons x xs ih =>
    unfold groups
    split
    · exact ⟨by simp, by simpa using ⟨ih.1, ih.2⟩⟩
    · rename_i nameless
      exact ⟨by simpa using ⟨nameless, ih.1⟩, ih.2⟩

theorem skippingRun {body : List Result} (nameless : ∀ x ∈ body, name? x = none)
    (recoverable : ∀ p, .error p ∈ body → Recoverable p) (items : List Item) (rest : List Result) :
    itemsRun (.skipping items) (body ++ rest) =
      itemsRun (.skipping ((body.filterMap passed?).reverse ++ items)) rest := by
  induction body generalizing items with
  | nil => rfl
  | cons x body ih =>
    have later := fun items => ih (fun y member => nameless y (by simp [member]))
      (fun p member => recoverable p (by simp [member])) items
    have stepped : (Phase.skipping items).step x =
        (.skipping ((passed? x).toList ++ items), []) := by
      cases x with
      | error p =>
        have mild := (recoverable p (by simp)).2
        simp [Phase.step, mild, passed?]
      | ok l =>
        have other := nameless (.ok l) (by simp)
        obtain ⟨token, line⟩ := l
        cases token <;> first | rfl | contradiction
    simp only [List.cons_append, itemsRun, stepped, List.nil_append, later, List.filterMap_cons]
    cases passed? x <;> simp

/-- Whatever came before, the items of it are given first, and `items` follow from `results`. -/
structure Continues (results : List Result) (items : List Item) : Prop where
  idle : itemsRun .idle results = items
  skipping : ∀ before, itemsRun (.skipping before) results = before.reverse ++ items
  drafting : ∀ d : Draft, itemsRun (.drafting d) results = d.finish ++ items

theorem draftItems {g : Group} {kind : RequestKind} (known : RequestKind.ofName? g.name = some kind)
    (nameless : ∀ x ∈ g.body, name? x = none)
    (placed : ∀ p ∈ problemsOf none g.body, p.line.isSome) :
    (g.body.foldl Draft.gather (.start kind g.line)).finish = g.items := by
  have all := gathered (.start kind g.line) nameless
  generalize g.body.foldl Draft.gather (.start kind g.line) = d at all
  obtain ⟨params, problems, comments, sameKind, sameLine⟩ := all
  simp only [Draft.start, List.reverse_nil, List.nil_append] at params problems comments sameKind sameLine
  simp only [Draft.finish, Group.items, known, params, problems, comments, sameKind, sameLine]
  congr 1
  cases all : problemsOf none g.body with
  | nil => rfl
  | cons p ps =>
    simp only
    rw [← all]
    apply List.map_congr_left
    intro p member
    rw [atLineKept (placed p member)]

theorem atLineRecoverable {p : Problem} (mild : p.isSevere = false) (n : Nat) :
    Recoverable (p.atLine n) :=
  ⟨by cases h : p.line <;> simp [Problem.atLine, h], mild⟩

theorem pushRecoverable {c : Collector} {v : Values} {p : Problem} (h : (c.push v).2 = some p) :
    Recoverable p := by
  unfold Collector.push at h
  split at h
  · contradiction
  · split at h
    · contradiction
    · cases Option.some.inj h
      exact atLineRecoverable rfl c.line

theorem takenRecoverable {a : Option Collector} {l : Lexeme} {p : Problem}
    (h : (taken a (.ok l)).problem = some p) : Recoverable p := by
  unfold taken at h
  cases a with
  | none =>
    simp only at h
    split at h
    · contradiction
    · cases Option.some.inj h
      exact atLineRecoverable rfl l.line
    · contradiction
  | some c =>
    simp only at h
    split at h
    · cases Option.some.inj h
      exact atLineRecoverable rfl l.line
    · contradiction
    · split at h
      · exact pushRecoverable h
      · contradiction

theorem problemsRecoverable {body : List Result}
    (recoverable : ∀ p, .error p ∈ body → Recoverable p) (a : Option Collector) :
    ∀ p ∈ problemsOf a body, Recoverable p := by
  induction body generalizing a with
  | nil =>
    intro p member
    obtain ⟨c, -, rfl⟩ := Option.map_eq_some_iff.mp (Option.mem_toList.mp member)
    exact atLineRecoverable rfl c.line
  | cons x body ih =>
    intro p member
    rcases List.mem_append.mp member with head | tail
    · have given : (taken a x).problem = some p := by simpa using head
      cases x with
      | error q =>
        have same : q = p := by cases a <;> simpa [taken] using given
        exact recoverable p (by simp [same])
      | ok l => exact takenRecoverable given
    · exact ih (fun p member => recoverable p (by simp [member])) _ p tail

theorem enteredRun {g : Group} {more : List Result} {items : List Item}
    (nameless : ∀ x ∈ g.body, name? x = none)
    (recoverable : ∀ p, .error p ∈ g.body → Recoverable p) (next : Continues more items) :
    itemsRun (.enter g.name g.line) (g.body ++ more) = g.items ++ items := by
  unfold Phase.enter
  cases known : RequestKind.ofName? g.name with
  | some kind =>
    simp only
    rw [draftingRun nameless recoverable, next.drafting,
      draftItems known nameless fun p member => (problemsRecoverable recoverable none p member).1]
  | none =>
    simp only
    rw [skippingRun nameless recoverable, next.skipping]
    simp [Group.items, known]

theorem continuesGroup {g : Group} {more : List Result} {items : List Item}
    (nameless : ∀ x ∈ g.body, name? x = none)
    (recoverable : ∀ p, .error p ∈ g.body → Recoverable p) (next : Continues more items) :
    Continues (g.results ++ more) (g.items ++ items) where
  idle := enteredRun nameless recoverable next
  drafting d := congrArg (d.finish ++ ·) (enteredRun nameless recoverable next)
  skipping before := by
    cases known : RequestKind.ofName? g.name with
    | some kind =>
      have entered := enteredRun nameless recoverable next
      simp only [Phase.enter, known] at entered
      simp [Group.results, itemsRun, Phase.step, known, entered]
    | none =>
      simp only [Group.results, List.cons_append, itemsRun, Phase.step, known, List.nil_append]
      rw [skippingRun nameless recoverable, next.skipping]
      simp [Group.items, known]

theorem continuesGroups {gs : List Group} (nameless : ∀ g ∈ gs, ∀ x ∈ g.body, name? x = none)
    (recoverable : ∀ g ∈ gs, ∀ p, .error p ∈ g.body → Recoverable p) :
    Continues (gs.flatMap Group.results) (gs.flatMap Group.items) := by
  induction gs with
  | nil => exact ⟨rfl, fun before => (List.append_nil _).symm, fun d => (List.append_nil _).symm⟩
  | cons g gs ih =>
    exact continuesGroup (nameless g (by simp)) (recoverable g (by simp))
      (ih (fun g member => nameless g (by simp [member]))
        fun g member => recoverable g (by simp [member]))

theorem leadingRun {head more : List Result} {items : List Item}
    (nameless : ∀ x ∈ head, name? x = none)
    (recoverable : ∀ p, .error p ∈ head → Recoverable p) (next : Continues more items) :
    itemsRun .idle (head ++ more) = leading head ++ items := by
  induction head with
  | nil => exact next.idle
  | cons x head ih =>
    have namelessTail : ∀ y ∈ head, name? y = none := fun y member => nameless y (by simp [member])
    have recoverableTail : ∀ p, .error p ∈ head → Recoverable p :=
      fun p member => recoverable p (by simp [member])
    have passing : ∀ item, itemsRun (.skipping [item]) (head ++ more) =
        item :: head.filterMap passed? ++ items := by
      intro item
      rw [skippingRun namelessTail recoverableTail, next.skipping]
      simp
    cases x with
    | error p =>
      have mild := (recoverable p (by simp)).2
      simp only [List.cons_append, itemsRun, Phase.step, mild, leading]
      exact passing (.error p)
    | ok l =>
      have other := nameless (.ok l) (by simp)
      obtain ⟨token, line⟩ := l
      cases token with
      | name s => contradiction
      | comment text structured =>
        exact congrArg (remark ⟨text, structured, line⟩ :: ·) (ih namelessTail recoverableTail)
      | _ => exact passing (.error (strayValue line))

theorem groupsRecoverable {xs : List Result} (recoverable : ∀ p, .error p ∈ xs → Recoverable p) :
    (∀ p, .error p ∈ (groups xs).1 → Recoverable p) ∧
    ∀ g ∈ (groups xs).2, ∀ p, .error p ∈ g.body → Recoverable p := by
  have whole := groupsJoin xs
  refine ⟨fun p member => recoverable p ?_, fun g group p member => recoverable p ?_⟩
  · rw [← whole]
    exact List.mem_append_left _ member
  · rw [← whole]
    exact List.mem_append_right _ (List.mem_flatMap.mpr ⟨g, group, List.mem_cons_of_mem _ member⟩)

theorem decodeGroups (bytes : Bytes) :
    decode bytes = leading (groups ((lexed bytes).map Lexed.result)).1 ++
      (groups ((lexed bytes).map Lexed.result)).2.flatMap Group.items := by
  have recoverable (p : Problem) (member : .error p ∈ (lexed bytes).map Lexed.result) :
      Recoverable p := lexedRecoverable member
  rw [decodeRun]
  generalize (lexed bytes).map Lexed.result = xs at recoverable ⊢
  obtain ⟨namelessHead, namelessBodies⟩ := groupsNameless xs
  obtain ⟨inHead, inGroups⟩ := groupsRecoverable recoverable
  have run := leadingRun namelessHead inHead (continuesGroups namelessBodies inGroups)
  rw [groupsJoin xs] at run
  exact run

/-! Comments and problems of the lexer. -/

def comment? : Item → Option Comment
  | .ok (.comment c) => some c
  | _ => none

def problem? {α : Type} : Except Problem α → Option Problem
  | .error p => some p
  | .ok _ => none

theorem passedComments (body : List Result) :
    (body.filterMap passed?).filterMap comment? = body.filterMap lexedComment? := by
  rw [List.filterMap_filterMap]
  congr 1
  funext x
  cases x with
  | error p => rfl
  | ok l =>
    obtain ⟨token, line⟩ := l
    cases token <;> rfl

theorem passedProblems (body : List Result) :
    (body.filterMap passed?).filterMap problem? = body.filterMap problem? := by
  rw [List.filterMap_filterMap]
  congr 1
  funext x
  cases x with
  | error p => rfl
  | ok l =>
    obtain ⟨token, line⟩ := l
    cases token <;> rfl

theorem passedKept (body : List Result) :
    (body.filterMap problem?).Sublist ((body.filterMap passed?).filterMap problem?) := by
  have same := passedProblems body
  exact same ▸ List.Sublist.refl _

theorem leadingComments {head : List Result} (nameless : ∀ x ∈ head, name? x = none) :
    (leading head).filterMap comment? = head.filterMap lexedComment? := by
  induction head with
  | nil => rfl
  | cons x head ih =>
    have tail := ih fun y member => nameless y (by simp [member])
    cases x with
    | error p => exact passedComments head
    | ok l =>
      have other := nameless (.ok l) (by simp)
      obtain ⟨token, line⟩ := l
      cases token with
      | name s => contradiction
      | comment text structured => exact congrArg (_ :: ·) tail
      | _ => exact passedComments head

theorem leadingProblems (head : List Result) :
    (head.filterMap problem?).Sublist ((leading head).filterMap problem?) := by
  induction head with
  | nil => exact List.Sublist.slnil
  | cons x head ih =>
    cases x with
    | error p => exact List.Sublist.cons_cons p (passedKept head)
    | ok l =>
      obtain ⟨token, line⟩ := l
      cases token with
      | comment text structured => exact ih
      | _ => exact List.Sublist.cons _ (passedKept head)

theorem leadingOneMore (head : List Result) :
    ((leading head).filterMap problem?).length ≤ (head.filterMap problem?).length + 1 := by
  induction head with
  | nil => exact Nat.zero_le _
  | cons x head ih =>
    have passing := Nat.succ_le_succ (Nat.le_of_eq (congrArg List.length (passedProblems head)))
    cases x with
    | error p => exact Nat.le_succ_of_le passing
    | ok l =>
      obtain ⟨token, line⟩ := l
      cases token with
      | comment text structured => exact ih
      | _ => exact passing

theorem lexedProblemsKept (a : Option Collector) (body : List Result) :
    (body.filterMap problem?).Sublist (problemsOf a body) := by
  induction body generalizing a with
  | nil => exact List.nil_sublist _
  | cons x body ih =>
    cases x with
    | error p =>
      have own : (taken a (.error p)).problem = some p := by cases a <;> rfl
      simp only [problemsOf, own, List.filterMap_cons, problem?]
      exact List.Sublist.cons_cons p (ih _)
    | ok l => exact (ih _).trans (List.sublist_append_right _ _)

theorem problemsOfErrors (problems : List Problem) (comments : List Comment) :
    (problems.map Except.error ++ comments.map remark).filterMap problem? = problems := by
  simp [List.filterMap_map, Function.comp_def, problem?, remark]

theorem remarkComments (comments : List Comment) :
    (comments.map remark).filterMap comment? = comments := by
  simp [List.filterMap_map, Function.comp_def, comment?, remark]

theorem groupComments (g : Group) :
    g.items.filterMap comment? = g.results.filterMap lexedComment? := by
  unfold Group.items Group.results
  rw [List.filterMap_cons]
  split
  · rw [List.filterMap_append, remarkComments]
    split
    · rfl
    · simp [List.filterMap_map, Function.comp_def, comment?, lexedComment?]
  · exact passedComments g.body

theorem decodeComments (bytes : Bytes) :
    (decode bytes).filterMap comment? =
      ((lexed bytes).map Lexed.result).filterMap lexedComment? := by
  rw [decodeGroups]
  generalize (lexed bytes).map Lexed.result = xs
  conv => rhs; rw [← groupsJoin xs]
  simp only [List.filterMap_append, List.filterMap_flatMap,
    leadingComments (groupsNameless xs).1, groupComments]

theorem groupProblems (g : Group) :
    (g.results.filterMap problem?).Sublist (g.items.filterMap problem?) := by
  have kept := lexedProblemsKept none g.body
  change (g.body.filterMap problem?).Sublist _
  unfold Group.items
  split
  · split
    · rename_i clean
      rw [clean] at kept
      rw [List.eq_nil_of_sublist_nil kept]
      exact List.nil_sublist _
    · rw [problemsOfErrors]
      exact kept
  · exact List.Sublist.cons _ (passedKept g.body)

theorem groupYields {g : Group} {kind : RequestKind}
    (known : RequestKind.ofName? g.name = some kind) :
    (∃ params, request ⟨kind, g.line, params⟩ ∈ g.items) ∨ ∃ p, .error p ∈ g.items := by
  unfold Group.items
  rw [known]
  simp only
  cases problemsOf none g.body with
  | nil => exact .inl ⟨_, List.mem_append_left _ (List.mem_singleton.mpr rfl)⟩
  | cons p ps => exact .inr ⟨p, by simp⟩

theorem sublistFlatMap {α β : Type} {l : List α} {f g : α → List β}
    (each : ∀ x ∈ l, (f x).Sublist (g x)) : (l.flatMap f).Sublist (l.flatMap g) := by
  induction l with
  | nil => exact List.Sublist.slnil
  | cons x l ih =>
    exact (each x (by simp)).append (ih fun y member => each y (by simp [member]))

/-- The results, cut before each name, give the items group by group; each known name gives its
request or a problem, and no comment and no problem of the lexer is lost or moved. -/
theorem decodeAccountsForAll (bytes : Bytes) :
    ∃ (head : List Result) (gs : List Group),
      (lexed bytes).map Lexed.result = head ++ gs.flatMap Group.results ∧
      (∀ x ∈ head, name? x = none) ∧ (∀ g ∈ gs, ∀ x ∈ g.body, name? x = none) ∧
      decode bytes = leading head ++ gs.flatMap Group.items ∧
      ((leading head).filterMap problem?).length ≤ (head.filterMap problem?).length + 1 ∧
      (∀ g ∈ gs, ∀ kind, RequestKind.ofName? g.name = some kind →
        (∃ params, request ⟨kind, g.line, params⟩ ∈ g.items) ∨ ∃ p, .error p ∈ g.items) ∧
      (decode bytes).filterMap comment? =
        ((lexed bytes).map Lexed.result).filterMap lexedComment? ∧
      (((lexed bytes).map Lexed.result).filterMap problem?).Sublist
        ((decode bytes).filterMap problem?) := by
  have items := decodeGroups bytes
  have comments := decodeComments bytes
  generalize (lexed bytes).map Lexed.result = xs at items comments
  have whole := groupsJoin xs
  obtain ⟨namelessHead, namelessBodies⟩ := groupsNameless xs
  refine ⟨(groups xs).1, (groups xs).2, whole.symm, namelessHead, namelessBodies, items,
    leadingOneMore _, fun g _ kind known => groupYields known, comments, ?_⟩
  rw [← congrArg (List.filterMap problem?) whole, items]
  simp only [List.filterMap_append, List.filterMap_flatMap]
  exact (leadingProblems _).append (sublistFlatMap fun g _ => groupProblems g)

end SceneStream.Stream
