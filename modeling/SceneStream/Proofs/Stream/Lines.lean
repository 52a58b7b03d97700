import SceneStream.Proofs.Stream.Array
import SceneStream.Proofs.Stream.Blame
import SceneStream.Proofs.Stream.Turns

/-! Lines from the reader up to the items. A line counts newlines of text, a lexeme has the line of its first
byte, a request that of its name, and a problem that of what it is told of. -/
namespace SceneStream.Stream

/-! Elements, at the points of lexing. -/

theorem reachedFound {bytes : Bytes} {m : Machine} {spent : List Piece} {e : Element} {line : Nat} {r : Reader}
    (finds : Finds m e line r) (reached : Reached bytes m spent) : ∃ spent, Reached bytes ⟨r, none⟩ spent := by
  induction finds generalizing spent with
  | found turn => exact ⟨_, .next reached turn⟩
  | on turn later ih => exact ih (.on reached turn)

theorem scansReached {bytes : Bytes} {r : Reader} {spent : List Piece} {c : Cursor}
    (reached : Reached bytes ⟨r, none⟩ spent) (place : r.At c) :
    ∀ s ∈ scansFrom c, ∃ m spent, Reached bytes m spent ∧ Starts s m := by
  intro s member
  rw [scansFromStep] at member
  cases found : scan? c with
  | none => simp [found] at member
  | some first =>
    have shorter := scanShorter found
    -- Backwards over the blanks: whoever comes here comes to where the element starts.
    have started : ∀ spent, Reached bytes ⟨r, none⟩ spent →
        ∃ m spent, Reached bytes m spent ∧ Starts first m :=
      blanksOver (P := fun m => ∀ spent, Reached bytes m spent → ∃ m spent, Reached bytes m spent ∧ Starts first m)
        (fun turn later _ reached => later _ (.on reached turn)) place
        fun r there spent reached => ⟨⟨r, none⟩, spent, reached, scanStarts found there⟩
    obtain ⟨m, spent, startReached, starts⟩ := started spent reached
    rw [found] at member
    rcases List.mem_cons.mp member with rfl | later
    · exact ⟨m, spent, startReached, starts⟩
    · obtain ⟨after, finds, there⟩ := starts.comes
      obtain ⟨spent, behind⟩ := reachedFound finds startReached
      exact scansReached behind there s later
  termination_by c.rest.length

/-! Requests and arrays, cut out of the results. -/

/-- A request as it was written: its name on a line, and behind it all up to the next name. -/
structure Written (all : List Result) (kind : RequestKind) (line : Nat) (body : List Result) : Prop where
  cut : ∃ before s after, all = before ++ .ok ⟨.name s, line⟩ :: body ++ after ∧
    RequestKind.ofName? s = some kind ∧ ∀ x ∈ after.head?, (name? x).isSome
  nameless : ∀ x ∈ body, name? x = none

/-- Every bracket that opens is followed by one that closes. -/
def Shut (l : List Result) : Prop :=
  ∀ before n after, l = before ++ .ok ⟨.opening, n⟩ :: after → ∃ m, .ok ⟨.closing, m⟩ ∈ after

/-- An array was opened on a line and nothing has closed it. -/
def Opened (l : List Result) (line : Nat) : Prop :=
  ∃ before after, l = before ++ .ok ⟨.opening, line⟩ :: after ∧ Shut before ∧ ∀ m, .ok ⟨.closing, m⟩ ∉ after

/-- A problem among the results: what it is told of, and the line of that. -/
inductive Caused (all : List Result) : Problem → Nat → Prop where
  | lexed {p : Problem} {line : Nat} (member : .error p ∈ all) (placed : p.line = some line) : Caused all p line
  | unknown {s : String} {line : Nat} (member : .ok ⟨.name s, line⟩ ∈ all) (unknown : RequestKind.ofName? s = none) :
      Caused all (unknownRequest s line) line
  | stray {before after : List Result} {l : Lexeme} (cut : all = before ++ .ok l :: after)
      (remarks : ∀ x ∈ before, (lexedComment? x).isSome) (value : name? (.ok l) = none)
      (visible : lexedComment? (.ok l) = none) : Caused all (strayValue l.line) l.line
  | nested {kind : RequestKind} {n first line : Nat} {inner rest : List Result}
      (written : Written all kind n (inner ++ .ok ⟨.opening, line⟩ :: rest)) (opened : Opened inner first) :
      Caused all (nestedArray line) line
  | unmatched {kind : RequestKind} {n line : Nat} {inner rest : List Result}
      (written : Written all kind n (inner ++ .ok ⟨.closing, line⟩ :: rest)) (shut : Shut inner) :
      Caused all (unmatchedEnd line) line
  | mixed {kind : RequestKind} {n line : Nat} {inner rest : List Result} {l : Lexeme} {v : Values × Bool}
      (written : Written all kind n (inner ++ .ok l :: rest)) (value : l.token.values? = some v)
      (opened : Opened inner line) (other : BasicType) :
      Caused all ((Collector.start line).mixed other v.1.basic) line
  | unclosed {kind : RequestKind} {n line : Nat} {body : List Result} (written : Written all kind n body)
      (opened : Opened body line) : Caused all (unclosedArray (.start line)) line

section Arrays
variable {l : List Result} {x : Result}

theorem shutMore (shut : Shut l) (other : ∀ n, x ≠ .ok ⟨.opening, n⟩) : Shut (l ++ [x]) := by
  intro before n after same
  rcases List.eq_nil_or_concat after with rfl | ⟨inner, last, rfl⟩
  · exact absurd (List.append_inj_right' same rfl |> List.singleton_inj.mp) (other n)
  · rw [List.concat_eq_append, ← List.cons_append, ← List.append_assoc] at same
    obtain ⟨closing, member⟩ := shut before n inner (List.append_inj_left' same rfl)
    exact ⟨closing, by simp [member]⟩

theorem shutClosing (m : Nat) : Shut (l ++ [.ok ⟨.closing, m⟩]) := by
  intro before n after same
  rcases List.eq_nil_or_concat after with rfl | ⟨inner, last, rfl⟩
  · cases List.append_inj_right' same rfl
  · rw [List.concat_eq_append, ← List.cons_append, ← List.append_assoc] at same
    cases List.append_inj_right' same rfl
    exact ⟨m, by simp⟩

theorem openedMore {line : Nat} (opened : Opened l line) (other : ∀ m, x ≠ .ok ⟨.closing, m⟩) :
    Opened (l ++ [x]) line := by
  obtain ⟨before, after, rfl, shut, open_⟩ := opened
  refine ⟨before, after ++ [x], by simp, shut, fun m member => ?_⟩
  rcases List.mem_append.mp member with inside | last
  · exact open_ m inside
  · exact other m (List.mem_singleton.mp last).symm

def Tracks (l : List Result) : Option Nat → Prop
  | none => Shut l
  | some line => Opened l line

theorem pushLine (c : Collector) (v : Values) : (c.push v).1.line = c.line := by
  unfold Collector.push
  split
  · rfl
  · split <;> rfl

theorem takenLine (a : Option Collector) {x : Result} (neither : ∀ n, x ≠ .ok ⟨.opening, n⟩ ∧ x ≠ .ok ⟨.closing, n⟩) :
    (taken a x).array.map Collector.line = a.map Collector.line := by
  cases x with
  | error p => cases a <;> rfl
  | ok lexeme =>
    obtain ⟨token, line⟩ := lexeme
    cases a with
    | none =>
      cases token with
      | opening => exact absurd rfl (neither line).1
      | _ => rfl
    | some c =>
      cases token with
      | closing => exact absurd rfl (neither line).2
      | integer | float | string | floats => exact congrArg some (pushLine c _)
      | _ => rfl

theorem tracksStep {a : Option Collector} (tracks : Tracks l (a.map Collector.line)) (x : Result) :
    Tracks (l ++ [x]) ((taken a x).array.map Collector.line) := by
  by_cases opens : ∃ n, x = .ok ⟨.opening, n⟩
  · obtain ⟨n, rfl⟩ := opens
    cases a with
    | none => exact ⟨l, [], rfl, tracks, fun _ => List.not_mem_nil⟩
    | some c => exact openedMore tracks fun _ => nofun
  · by_cases closes : ∃ n, x = .ok ⟨.closing, n⟩
    · obtain ⟨n, rfl⟩ := closes
      cases a with
      | none => exact shutClosing n
      | some c => exact shutClosing n
    · rw [takenLine a fun n => ⟨fun same => opens ⟨n, same⟩, fun same => closes ⟨n, same⟩⟩]
      cases a with
      | none => exact shutMore tracks fun n same => opens ⟨n, same⟩
      | some c => exact openedMore tracks fun n same => closes ⟨n, same⟩

theorem openTracks (l : List Result) : Tracks l ((openAfter none l).map Collector.line) := by
  induction l using List.reverseRecOn with
  | nil => exact fun before n after same => by cases before <;> cases same
  | append_singleton l x ih =>
    rw [openAfter, List.foldl_append]
    exact tracksStep ih x

end Arrays

/-! The problems of a request. -/

section Problems
variable {p : Problem} {body : List Result} {a : Option Collector}

theorem problemsPlaced (member : p ∈ problemsOf a body) :
    (∃ inner x rest, body = inner ++ x :: rest ∧ (taken (openAfter a inner) x).problem = some p) ∨
      ∃ c, openAfter a body = some c ∧ p = unclosedArray c := by
  induction body generalizing a with
  | nil =>
    obtain ⟨c, same, rfl⟩ := Option.map_eq_some_iff.mp (Option.mem_toList.mp member)
    exact .inr ⟨c, same, rfl⟩
  | cons x body ih =>
    rcases List.mem_append.mp member with own | later
    · exact .inl ⟨[], x, body, rfl, Option.mem_toList.mp own⟩
    · rcases ih later with ⟨inner, y, rest, rfl, given⟩ | ⟨c, same, rfl⟩
      · exact .inl ⟨x :: inner, y, rest, rfl, given⟩
      · exact .inr ⟨c, same, rfl⟩

theorem pushMixed {c : Collector} {v : Values} (refused : (c.push v).2 = some p) :
    ∃ other, p = (Collector.start c.line).mixed other v.basic := by
  unfold Collector.push at refused
  split at refused
  · cases refused
  · split at refused
    · cases refused
    · cases refused
      exact ⟨_, rfl⟩

inductive Taking : Option Nat → Result → Problem → Prop where
  | lexed {a : Option Nat} {p : Problem} : Taking a (.error p) p
  | unmatched {line : Nat} : Taking none (.ok ⟨.closing, line⟩) (unmatchedEnd line)
  | nested {first line : Nat} : Taking (some first) (.ok ⟨.opening, line⟩) (nestedArray line)
  | mixed {first : Nat} {l : Lexeme} {v : Values × Bool} (value : l.token.values? = some v) (other : BasicType) :
      Taking (some first) (.ok l) ((Collector.start first).mixed other v.1.basic)

theorem takenTaking {x : Result} (given : (taken a x).problem = some p) : Taking (a.map Collector.line) x p := by
  cases x with
  | error q =>
    have same : q = p := by cases a <;> simpa [taken] using given
    exact same ▸ .lexed
  | ok l =>
    obtain ⟨token, line⟩ := l
    cases a with
    | none =>
      cases token with
      | closing => cases given; exact .unmatched
      | _ => cases given
    | some c =>
      cases token with
      | opening => cases given; exact .nested
      | integer | float | string | floats =>
        obtain ⟨other, rfl⟩ := pushMixed given
        exact .mixed rfl other
      | _ => cases given

variable {all : List Result} {kind : RequestKind} {n : Nat}

theorem bodyCaused (written : Written all kind n body) (recoverable : ∀ p, .error p ∈ body → Recoverable p)
    (inside : ∀ x ∈ body, x ∈ all) (member : p ∈ problemsOf none body) :
    ∃ line, Caused all p line ∧ p.line = some line := by
  rcases problemsPlaced member with ⟨inner, x, rest, rfl, given⟩ | ⟨c, same, rfl⟩
  · have tracks := openTracks inner
    have taking := takenTaking given
    generalize (openAfter none inner).map Collector.line = first at tracks taking
    cases taking with
    | lexed =>
      obtain ⟨line, placed⟩ := Option.isSome_iff_exists.mp (recoverable p (by simp)).1
      exact ⟨line, .lexed (inside _ (by simp)) placed, placed⟩
    | unmatched => exact ⟨_, .unmatched written tracks, rfl⟩
    | nested => exact ⟨_, .nested written tracks, rfl⟩
    | mixed value other => exact ⟨_, .mixed written value tracks other, rfl⟩
  · have tracks := openTracks body
    rw [same] at tracks
    exact ⟨c.line, .unclosed written tracks, rfl⟩

end Problems

/-! All items. -/

section Items
variable {all : List Result} {g : Group} {p : Problem}

theorem groupCut (member : g ∈ (groups all).2) : ∃ before after,
    all = before ++ .ok ⟨.name g.name, g.line⟩ :: g.body ++ after ∧ ∀ x ∈ after.head?, (name? x).isSome := by
  obtain ⟨first, last, same⟩ := List.append_of_mem member
  have whole := groupsJoin all
  rw [same, List.flatMap_append, List.flatMap_cons] at whole
  refine ⟨(groups all).1 ++ first.flatMap Group.results, last.flatMap Group.results, ?_, fun x head => ?_⟩
  · refine whole.symm.trans ?_
    simp only [Group.results, List.append_assoc, List.cons_append]
  · cases last with
    | nil => cases head
    | cons g last =>
      cases head
      rfl

theorem groupWritten {kind : RequestKind} (known : RequestKind.ofName? g.name = some kind)
    (member : g ∈ (groups all).2) : Written all kind g.line g.body := by
  obtain ⟨before, after, same, next⟩ := groupCut member
  exact ⟨⟨before, g.name, after, same, known, next⟩, (groupsNameless all).2 g member⟩

theorem passedError {body : List Result} (member : .error p ∈ body.filterMap passed?) : .error p ∈ body := by
  obtain ⟨x, inside, same⟩ := List.mem_filterMap.mp member
  cases x with
  | error q =>
    cases same
    exact inside
  | ok l =>
    obtain ⟨token, line⟩ := l
    cases token <;> cases same

theorem passedNoRequest (body : List Result) (r : Request) : request r ∉ body.filterMap passed? := by
  intro member
  obtain ⟨x, -, same⟩ := List.mem_filterMap.mp member
  cases x with
  | error q => cases same
  | ok l =>
    obtain ⟨token, line⟩ := l
    cases token <;> cases same

theorem groupTitled {r : Request} (group : g ∈ (groups all).2) (member : request r ∈ g.items) :
    ∃ body, Written all r.kind r.line body ∧ parametersOf none body = r.params ∧ problemsOf none body = [] := by
  unfold Group.items at member
  split at member
  · rename_i kind known
    rcases List.mem_append.mp member with own | comments
    · split at own
      · rename_i clean
        cases Entry.request.inj (Except.ok.inj (List.mem_singleton.mp own))
        exact ⟨g.body, groupWritten known group, rfl, clean⟩
      · obtain ⟨p, -, same⟩ := List.mem_map.mp own
        cases same
    · obtain ⟨c, -, same⟩ := List.mem_map.mp comments
      cases same
  · rcases List.mem_cons.mp member with same | passed
    · cases same
    · exact absurd passed (passedNoRequest g.body r)

theorem groupCaused (recoverable : ∀ p, .error p ∈ all → Recoverable p) (group : g ∈ (groups all).2)
    (member : .error p ∈ g.items) : ∃ line, Caused all p line ∧ p.line = some line := by
  obtain ⟨before, after, same, -⟩ := groupCut group
  have inside : ∀ x ∈ g.body, x ∈ all := fun x inner => by rw [same]; simp [inner]
  unfold Group.items at member
  split at member
  · rename_i kind known
    refine bodyCaused (groupWritten known group) (fun p own => recoverable p (inside _ own)) inside ?_
    rcases List.mem_append.mp member with own | comments
    · split at own
      · cases List.mem_singleton.mp own
      · obtain ⟨q, problem, same⟩ := List.mem_map.mp own
        cases same
        exact problem
    · obtain ⟨c, -, same⟩ := List.mem_map.mp comments
      cases same
  · rename_i unknown
    rcases List.mem_cons.mp member with same | passed
    · cases same
      exact ⟨g.line, .unknown (by rw [same]; simp) unknown, rfl⟩
    · have own := inside _ (passedError passed)
      obtain ⟨line, placed⟩ := Option.isSome_iff_exists.mp (recoverable p own).1
      exact ⟨line, .lexed own placed, placed⟩

theorem leadingError {head : List Result} (nameless : ∀ x ∈ head, name? x = none)
    (member : .error p ∈ leading head) : .error p ∈ head ∨ ∃ before l after, head = before ++ .ok l :: after ∧
      (∀ x ∈ before, (lexedComment? x).isSome) ∧ lexedComment? (.ok l) = none ∧ p = strayValue l.line := by
  induction head with
  | nil => cases member
  | cons x head ih =>
    have passed (later : .error p ∈ head.filterMap passed?) : .error p ∈ x :: head :=
      List.mem_cons_of_mem x (passedError later)
    cases x with
    | error q =>
      rcases List.mem_cons.mp member with same | later
      · cases same
        exact .inl List.mem_cons_self
      · exact .inl (passed later)
    | ok l =>
      have value := nameless (.ok l) List.mem_cons_self
      obtain ⟨token, line⟩ := l
      cases token with
      | name s => cases value
      | comment text structured =>
        rcases List.mem_cons.mp member with same | later
        · cases same
        · rcases ih (fun y inside => nameless y (List.mem_cons_of_mem _ inside)) later with own | stray
          · exact .inl (List.mem_cons_of_mem _ own)
          · obtain ⟨before, l, after, rfl, remarks, visible, told⟩ := stray
            refine .inr ⟨_ :: before, l, after, rfl, fun y inside => ?_, visible, told⟩
            rcases List.mem_cons.mp inside with rfl | inside
            · rfl
            · exact remarks y inside
      | _ =>
        rcases List.mem_cons.mp member with same | later
        · cases same
          exact .inr ⟨[], _, head, rfl, fun _ => nofun, rfl, rfl⟩
        · exact .inl (passed later)

variable {bytes : Bytes}

theorem errorCaused (member : .error p ∈ decode bytes) :
    ∃ line, Caused ((lexed bytes).map Lexed.result) p line ∧ p.line = some line := by
  have recoverable (q : Problem) (told : .error q ∈ (lexed bytes).map Lexed.result) :
      Recoverable q := lexedRecoverable told
  rw [decodeGroups] at member
  generalize (lexed bytes).map Lexed.result = all at recoverable member ⊢
  rcases List.mem_append.mp member with head | bodies
  · have nameless := (groupsNameless all).1
    have whole := groupsJoin all
    rcases leadingError nameless head with own | ⟨before, l, after, same, remarks, visible, rfl⟩
    · have inside : .error p ∈ all := by rw [← whole]; exact List.mem_append_left _ own
      obtain ⟨line, placed⟩ := Option.isSome_iff_exists.mp (recoverable p inside).1
      exact ⟨line, .lexed inside placed, placed⟩
    · rw [same, List.append_assoc, List.cons_append] at whole
      exact ⟨l.line, .stray whole.symm remarks (nameless _ (by simp [same])) visible, rfl⟩
  · obtain ⟨g, group, own⟩ := List.mem_flatMap.mp bodies
    exact groupCaused recoverable group own

theorem leadingNoRequest (head : List Result) (r : Request) : request r ∉ leading head := by
  induction head with
  | nil => exact List.not_mem_nil
  | cons x head ih =>
    have passed (p : Problem) : request r ∉ (.error p :: head.filterMap passed? : List Item) := fun member => by
      rcases List.mem_cons.mp member with same | later
      · cases same
      · exact passedNoRequest head r later
    cases x with
    | error q => exact passed q
    | ok l =>
      obtain ⟨token, line⟩ := l
      cases token with
      | comment text structured =>
        intro member
        rcases List.mem_cons.mp member with same | later
        · cases same
        · exact ih later
      | _ => exact passed (strayValue line)

theorem requestTitled {r : Request} (member : request r ∈ decode bytes) :
    ∃ body, Written ((lexed bytes).map Lexed.result) r.kind r.line body ∧
      parametersOf none body = r.params ∧ problemsOf none body = [] := by
  rw [decodeGroups] at member
  rcases List.mem_append.mp member with head | bodies
  · exact absurd head (leadingNoRequest _ r)
  · obtain ⟨g, group, own⟩ := List.mem_flatMap.mp bodies
    exact groupTitled group own

end Items

/-- Lines are exact. Turn by turn the lexer finds the elements; at each point of it the bytes are those taken and
those unread, and its line is one more than the newlines among those taken as text. Each element has the line that
the reader shows once its first byte is read; each result of the lexer that of the element it is told of; each
request that of its name; and each problem that of what it is told of. -/
theorem linesExact (bytes : Bytes) :
    Lexes ⟨.start bytes, none⟩ ((scans bytes).map fun s => (s.element, s.line)) ∧
    (∀ m spent, Reached bytes m spent → spent.map Piece.byte ++ m.reader.unread = bytes ∧
      m.reader.line = 1 + newlines (textOf spent)) ∧
    (∀ s ∈ scans bytes, ∃ m spent, Reached bytes m spent ∧ Starts s m) ∧
    (∀ done x later, lexed bytes = done ++ x :: later →
      ∃ s ∈ scans bytes, Blamed (scans bytes) done x.result s ∧ shownLine x.result = some s.line) ∧
    (∀ r, request r ∈ decode bytes → ∃ body, Written ((lexed bytes).map Lexed.result) r.kind r.line body ∧
      parametersOf none body = r.params ∧ problemsOf none body = []) ∧
    ∀ p, .error p ∈ decode bytes →
      ∃ line, Caused ((lexed bytes).map Lexed.result) p line ∧ p.line = some line := by
  have start : Reader.At (.start bytes) (.start bytes) := ⟨rfl, rfl⟩
  refine ⟨lexesFrom start, fun m spent reached => ?_, scansReached .start start, fun done x later given => ?_,
    fun r => requestTitled, fun p => errorCaused⟩
  · exact ⟨(reachedCounts reached).whole, (reachedCounts reached).line⟩
  · obtain ⟨s, blamed⟩ := lexedBlamed given
    exact ⟨s, blamedMember blamed, blamed, blamedLine (by rw [given]; simp) blamed⟩

example : (scans [0x91, 10, 10, 97]).map Scan.line = [1, 2] := rfl

end SceneStream.Stream
