import SceneStream.Proofs.Variable

/-! What tokens stand for, against a plain map of the names that were declared. A token that declares itself is
entered at its first use, and changes the meaning of none by it; a number that was given out once keeps its
declaration. -/
namespace SceneStream.Dictionary
open SceneStream.Declaration

inductive Operation where
  | declare (name text : String)
  | resolve (token : String)
  | find (token : String)
  | setColorSamples (n : Nat)
  | bind (counts : ValueCounts) (list : List TokenValue)

/-- The dictionary afterwards, and the number that is given. What fails gives none. -/
def perform (d : Dictionary) : Operation → Dictionary × Option Nat
  | .declare name text => match d.declare name text with
    | .ok (e, n, _) => (e, some n)
    | .error _ => (d, none)
  | .resolve token => match d.resolve token with
    | .ok (e, n, _) => (e, some n)
    | .error _ => (d, none)
  | .find token => (d, d.find? token)
  | .setColorSamples n => match d.setColorSamples n with
    | .ok e => (e, none)
    | .error _ => (d, none)
  | .bind counts list => (((Variables.bind counts list).run d).2, none)

def performAll (d : Dictionary) (l : List Operation) : Dictionary := l.foldl (fun d o => (d.perform o).1) d

def Operation.token? : Operation → Option String
  | declare name _ => some (Text.trimBlank name)
  | resolve token | find token => some token
  | setColorSamples _ | bind _ _ => none

/-- The names that were declared, the latest first, and the color samples. -/
structure Plain where
  names : List (String × Declaration)
  colorSamples : Nat

namespace Plain

def after (p : Plain) : Operation → Plain
  | .declare name text => match ofText name text with
    | .ok x => { p with names := (Text.trimBlank name, x) :: p.names }
    | .error _ => p
  | .setColorSamples n => if n = 0 then p else { p with colorSamples := n }
  | .resolve _ | .find _ | .bind _ _ => p

/-- The latest declaration of a name; any other token has to declare itself. -/
def meaning (p : Plain) (token : String) : Except Problem Declaration :=
  match p.names.lookup token with
  | some x => .ok x
  | none => match ofToken? token with
    | some x => .ok x
    | none => .error (undeclared token)

end Plain

inductive Origin where
  | empty | initial

def Origin.dictionary : Origin → Dictionary
  | empty => .empty
  | initial => .initial

def Origin.plain : Origin → Plain
  | empty => ⟨[], 3⟩
  | initial => ⟨(predefined.map fun (name, storage, kind, size) =>
      (name, ⟨name, storage, kind, size, false⟩)).reverse, 3⟩

/-- Names stand for what was declared last, and all that is entered besides declares itself. -/
structure Agrees (d : Dictionary) (p : Plain) : Prop where
  named : ∀ {token x}, p.names.lookup token = some x → ∃ n, d.find? token = some n ∧ d.get? n = some x
  inline : ∀ {token n}, p.names.lookup token = none → d.find? token = some n →
    ∃ x, ofToken? token = some x ∧ d.get? n = some x
  colorSamples : d.colorSamples = p.colorSamples

theorem insertFind (d : Dictionary) (token other : String) (x : Declaration) :
    (d.insert token x).find? other = if other = token then some d.size else d.find? other :=
  Named.getCons token d.size d.tokens other

theorem resolveFound {d e : Dictionary} {token : String} {n : Nat} {x : Declaration}
    (done : d.resolve token = .ok (e, n, x)) : e.find? token = some n := by
  unfold resolve at done
  split at done
  · rename_i found
    cases done
    exact found
  · split at done
    · cases done
      rw [insertFind, if_pos rfl]
    · cases done

inductive Performed (d : Dictionary) : Operation → Dictionary → Option Nat → Prop where
  | declared {name text : String} {x : Declaration} (read : ofText name text = .ok x) :
      Performed d (.declare name text) (d.insert (Text.trimBlank name) x) (some d.size)
  | refused {name text : String} {p : Problem} (read : ofText name text = .error p) :
      Performed d (.declare name text) d none
  | resolved {token : String} {e : Dictionary} {n : Nat} (grows : d.Grows e) (found : e.find? token = some n) :
      Performed d (.resolve token) e (some n)
  | unresolved (token : String) : Performed d (.resolve token) d none
  | sought {token : String} {n : Option Nat} (found : d.find? token = n) : Performed d (.find token) d n
  | sampled {n : Nat} (positive : n ≠ 0) : Performed d (.setColorSamples n) { d with colorSamples := n } none
  | unsampled : Performed d (.setColorSamples 0) d none
  | bound (counts : ValueCounts) (list : List TokenValue) {e : Dictionary} (grows : d.Grows e) :
      Performed d (.bind counts list) e none

theorem performed (d : Dictionary) (o : Operation) : Performed d o (d.perform o).1 (d.perform o).2 := by
  cases o with
  | declare name text =>
    simp only [perform, declare]
    cases read : ofText name text with
    | error p => exact .refused read
    | ok x =>
      have done := Performed.declared (d := d) read
      rwa [← textName read] at done
  | resolve token =>
    simp only [perform]
    cases done : d.resolve token with
    | error p => exact .unresolved token
    | ok y => exact .resolved (resolveOk done).1 (resolveFound done)
  | find token => exact .sought rfl
  | setColorSamples n =>
    simp only [perform, Dictionary.setColorSamples]
    by_cases none : n = 0
    · simp only [none, if_true]
      exact .unsampled
    · simp only [none, if_false]
      exact .sampled none
  | bind counts list => exact .bound counts list (Variables.bindEnds counts list d).grows

section Agrees
variable {d e : Dictionary} {p : Plain}

theorem insertAgrees (agrees : Agrees d p) (name : String) (x : Declaration) :
    Agrees (d.insert name x) { p with names := (name, x) :: p.names } := by
  have entered (token : String) : List.lookup token ((name, x) :: p.names) =
      if token = name then some x else p.names.lookup token := Named.getCons name x p.names token
  refine ⟨fun {token y} found => ?_, fun {token n} none found => ?_, agrees.colorSamples⟩
  · rw [entered] at found
    rw [insertFind]
    by_cases same : token = name
    · rw [if_pos same] at found
      cases found
      exact ⟨d.size, if_pos same, insertNewest d name x⟩
    · rw [if_neg same] at found
      obtain ⟨n, older, gives⟩ := agrees.named found
      exact ⟨n, (if_neg same).trans older, insertGet gives⟩
  · rw [entered] at none
    rw [insertFind] at found
    by_cases same : token = name
    · rw [if_pos same] at none
      cases none
    · rw [if_neg same] at none found
      obtain ⟨y, read, gives⟩ := agrees.inline none found
      exact ⟨y, read, insertGet gives⟩

theorem growsAgrees (grows : d.Grows e) (agrees : Agrees d p) : Agrees e p := by
  induction grows with
  | refl => exact agrees
  | @inline e token x _ new read ih =>
    refine ⟨fun found => ?_, fun {other n} none found => ?_, ih.colorSamples⟩
    · obtain ⟨n, older, gives⟩ := ih.named found
      exact ⟨n, growsFind (.inline .refl new read) older, insertGet gives⟩
    · rw [insertFind] at found
      by_cases same : other = token
      · rw [if_pos same] at found
        cases found
        exact ⟨x, same ▸ read, insertNewest e token x⟩
      · rw [if_neg same] at found
        obtain ⟨y, own, gives⟩ := ih.inline none found
        exact ⟨y, own, insertGet gives⟩

theorem agreesFind (agrees : Agrees d p) {token : String} {n : Nat} (found : d.find? token = some n) :
    ∃ x, p.meaning token = .ok x ∧ d.get? n = some x := by
  unfold Plain.meaning
  cases named : p.names.lookup token with
  | some x =>
    obtain ⟨m, same, gives⟩ := agrees.named named
    cases found.symm.trans same
    exact ⟨x, rfl, gives⟩
  | none =>
    obtain ⟨x, read, gives⟩ := agrees.inline named found
    exact ⟨x, by simp only [read], gives⟩

theorem agreesResolve (agrees : Agrees d p) (token : String) :
    (d.resolve token).map (fun y => y.2.2) = p.meaning token := by
  unfold resolve
  split
  · rename_i n found
    obtain ⟨x, meaning, gives⟩ := agreesFind agrees found
    have same : d.get? n = some (d.get n (findInside found)) := dif_pos _
    cases gives.symm.trans same
    exact meaning.symm
  · rename_i new
    have unnamed : p.names.lookup token = none := by
      cases named : p.names.lookup token with
      | none => rfl
      | some x =>
        obtain ⟨n, found, -⟩ := agrees.named named
        cases new.symm.trans found
    unfold Plain.meaning
    rw [unnamed]
    cases ofToken? token <;> rfl

theorem performAgrees (agrees : Agrees d p) (o : Operation) : Agrees (d.perform o).1 (p.after o) := by
  have done := performed d o
  generalize d.perform o = next at done
  obtain ⟨e, n⟩ := next
  cases done with
  | declared read =>
    simp only [Plain.after, read]
    exact insertAgrees agrees _ _
  | refused read =>
    simp only [Plain.after, read]
    exact agrees
  | resolved grows | bound _ _ grows => exact growsAgrees grows agrees
  | unresolved | sought | unsampled => exact agrees
  | sampled positive =>
    simp only [Plain.after, if_neg positive]
    exact ⟨agrees.named, agrees.inline, rfl⟩

theorem performAllAgrees (agrees : Agrees d p) (l : List Operation) :
    Agrees (d.performAll l) (l.foldl Plain.after p) := by
  induction l generalizing d p with
  | nil => exact agrees
  | cons o l ih => exact ih (performAgrees agrees o)

end Agrees

theorem enteredAgrees (l : List (String × StorageClass × TypeKind × Nat)) {d : Dictionary} {p : Plain}
    (agrees : Agrees d p) :
    Agrees (l.foldl (fun d (name, storage, kind, size) => d.insert name ⟨name, storage, kind, size, false⟩) d)
      { p with names := (l.map fun (name, storage, kind, size) =>
        (name, (⟨name, storage, kind, size, false⟩ : Declaration))).reverse ++ p.names } := by
  induction l generalizing d p with
  | nil => exact agrees
  | cons row l ih =>
    have next := ih (insertAgrees agrees row.1 ⟨row.1, row.2.1, row.2.2.1, row.2.2.2, false⟩)
    simpa using next

theorem originAgrees (origin : Origin) : Agrees origin.dictionary origin.plain := by
  have begun : Agrees empty ⟨[], 3⟩ := ⟨nofun, nofun, rfl⟩
  cases origin with
  | empty => exact begun
  | initial =>
    have all := enteredAgrees predefined begun
    rwa [List.append_nil] at all

/-! Numbers. -/

theorem performFound {d : Dictionary} {o : Operation} {n : Nat} (given : (d.perform o).2 = some n) :
    ∃ token, o.token? = some token ∧ (d.perform o).1.find? token = some n := by
  have done := performed d o
  generalize d.perform o = next at done given ⊢
  obtain ⟨e, m⟩ := next
  cases given
  cases done with
  | declared read => exact ⟨_, rfl, (insertFind ..).trans (if_pos rfl)⟩
  | resolved grows found => exact ⟨_, rfl, found⟩
  | sought found => exact ⟨_, rfl, found⟩

theorem performGet {d : Dictionary} {n : Nat} {x : Declaration} (o : Operation)
    (gives : d.get? n = some x) : (d.perform o).1.get? n = some x := by
  have done := performed d o
  generalize d.perform o = next at done ⊢
  obtain ⟨e, m⟩ := next
  cases done with
  | declared read => exact insertGet gives
  | resolved grows | bound _ _ grows => exact growsGet grows gives
  | refused | unresolved | sought | unsampled | sampled => exact gives

theorem performAllGet {d : Dictionary} {n : Nat} {x : Declaration} (l : List Operation)
    (gives : d.get? n = some x) : (d.performAll l).get? n = some x := by
  induction l generalizing d with
  | nil => exact gives
  | cons o l ih => exact ih (performGet o gives)

/-- Whatever was asked before, a token stands for the latest declaration of that name, and else for what it
declares itself; only declarations change what any token stands for. A number that is given stands for what
its token does, and for the same declaration ever after, as wide as the color samples of the moment make it. -/
theorem tokensKeepMeaning (origin : Origin) (before : List Operation) :
    let d := origin.dictionary.performAll before
    let p := before.foldl Plain.after origin.plain
    (∀ token, (d.resolve token).map (fun y => y.2.2) = p.meaning token) ∧
    (∀ o, (∀ name text, o ≠ .declare name text) → ∀ token,
      ((d.perform o).1.resolve token).map (fun y => y.2.2) = (d.resolve token).map fun y => y.2.2) ∧
    ∀ o n, (d.perform o).2 = some n → ∃ token x, o.token? = some token ∧
      (p.after o).meaning token = .ok x ∧ ∀ later,
        let e := (d.perform o).1.performAll later
        e.get? n = some x ∧
        e.width x = x.kind.components (later.foldl Plain.after (p.after o)).colorSamples * x.size := by
  intro d p
  have agrees : Agrees d p := performAllAgrees (originAgrees origin) before
  refine ⟨agreesResolve agrees, fun o other token => ?_, fun o n given => ?_⟩
  · have same : (p.after o).meaning token = p.meaning token := by
      cases o with
      | declare name text => exact absurd rfl (other name text)
      | setColorSamples n =>
        simp only [Plain.after]
        split <;> rfl
      | _ => rfl
    rw [agreesResolve (performAgrees agrees o), same, agreesResolve agrees]
  · obtain ⟨token, asked, found⟩ := performFound given
    have after := performAgrees agrees o
    obtain ⟨x, meaning, gives⟩ := agreesFind after found
    refine ⟨token, x, asked, meaning, fun later => ⟨performAllGet later gives, ?_⟩⟩
    have samples := (performAllAgrees after later).colorSamples
    show x.kind.components _ * x.size = _
    rw [samples]

end SceneStream.Dictionary
