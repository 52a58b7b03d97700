import SceneStream.Problem

/-! Work on a state that may fail. What was done before it fails stays done, and what its outcomes are
like follows from the outcomes of its parts. -/
namespace SceneStream

/-- Where only the program can be to blame. -/
inductive ProblemKind.Unexpected : ProblemKind → Prop where
  | internal : Unexpected .internal
  | crash : Unexpected .crash

def Problem.Expected (p : Problem) : Prop := ¬ p.kind.Unexpected

abbrev Outcome (α : Type) := Except Problem α

namespace Outcome
variable {α β ε : Type} {E F : Problem → Prop} {P : α → Prop} {Q : β → Prop}

/-- A value of which `P` holds, or else a problem of which `E` holds. -/
def Ends (E : Problem → Prop) (P : α → Prop) : Outcome α → Prop
  | .ok a => P a
  | .error p => E p

instance [DecidablePred E] [DecidablePred P] (x : Outcome α) : Decidable (Ends E P x) :=
  match x with
  | .ok a => inferInstanceAs (Decidable (P a))
  | .error p => inferInstanceAs (Decidable (E p))

abbrev Yields (P : α → Prop) : Outcome α → Prop := Ends Problem.Expected P

def Safe (x : Outcome α) : Prop := Yields (fun _ => True) x

theorem endsMono {P' : α → Prop} {x : Outcome α} (ends : Ends E P x) (problems : ∀ p, E p → F p)
    (values : ∀ a, P a → P' a) : Ends F P' x := by
  cases x with
  | ok a => exact values a ends
  | error p => exact problems p ends

theorem endsBind {x : Outcome α} {f : α → Outcome β} (first : Ends E P x)
    (next : ∀ a, P a → Ends E Q (f a)) : Ends E Q (x >>= f) := by
  cases x with
  | ok a => exact next a first
  | error p => exact first

theorem endsMap {x : Outcome α} {f : α → β} (first : Ends E P x)
    (next : ∀ a, P a → Q (f a)) : Ends E Q (x.map f) := by
  cases x with
  | ok a => exact next a first
  | error p => exact first

theorem okBind {x : Except ε α} {f : α → Except ε β} {b : β} (done : (x >>= f) = .ok b) :
    ∃ a, x = .ok a ∧ f a = .ok b := by
  cases x with
  | ok a => exact ⟨a, rfl, done⟩
  | error e => cases done

theorem okMap {x : Except ε α} {f : α → β} {b : β} (done : x.map f = .ok b) :
    ∃ a, x = .ok a ∧ f a = b := by
  cases x with
  | ok a => exact ⟨a, rfl, Except.ok.inj done⟩
  | error e => cases done

theorem optionOk {x : Except ε α} {a : α} (some : x.toOption = some a) : x = .ok a := by
  cases x with
  | ok b => exact congrArg Except.ok (Option.some.inj some)
  | error e => cases some

theorem mapsAll {m : Type → Type} [Monad m] [LawfulMonad m] {γ δ : Type} (l : List β) {e : β → γ} {f : γ → m δ}
    {g : β → δ} (same : ∀ x ∈ l, f (e x) = pure (g x)) : (l.map e).mapM f = pure (l.map g) := by
  induction l with
  | nil => rfl
  | cons a l ih =>
    rw [List.forall_mem_cons] at same
    rw [List.map_cons, List.mapM_cons, same.1, ih same.2, pure_bind, pure_bind]
    rfl

theorem safeIs {x : Outcome α} (safe : Safe x) : Yields (fun a => x = .ok a) x := by
  cases x with
  | ok a => exact rfl
  | error p => exact safe

theorem safeMap {x : Outcome α} (first : Safe x) (f : α → β) : Safe (x.map f) :=
  endsMap first fun _ _ => trivial

theorem endsMapError {f : ε → Problem} (problems : ∀ e, E (f e)) {x : Except ε α}
    (values : ∀ a, x = .ok a → P a) : Ends E P (x.mapError f) := by
  cases x with
  | ok a => exact values a rfl
  | error e => exact problems e

theorem endsMapM {f : α → Outcome β} {l : List α} (each : ∀ a ∈ l, Ends E Q (f a)) :
    Ends E (fun bs => ∀ b ∈ bs, Q b) (l.mapM f) := by
  induction l with
  | nil => exact nofun
  | cons a l ih =>
    rw [List.mapM_cons]
    refine endsBind (each a (List.mem_cons_self ..)) fun b holds => ?_
    refine endsBind (ih fun a mem => each a (List.mem_cons_of_mem _ mem)) fun bs all => ?_
    exact fun c mem => (List.mem_cons.mp mem).elim (fun same => same ▸ holds) (all c)

theorem endsFilterMapM {f : α → Outcome (Option β)} {l : List α}
    (each : ∀ a ∈ l, Ends E (fun b => ∀ c ∈ b, Q c) (f a)) :
    Ends E (fun bs => ∀ b ∈ bs, Q b) (l.filterMapM f) := by
  induction l with
  | nil => exact nofun
  | cons a l ih =>
    rw [List.filterMapM_cons]
    refine endsBind (each a (List.mem_cons_self ..)) fun b holds => ?_
    have rest := ih fun a mem => each a (List.mem_cons_of_mem _ mem)
    cases b with
    | none => exact rest
    | some b =>
      refine endsBind rest fun bs all => ?_
      exact fun c mem => (List.mem_cons.mp mem).elim (fun same => same ▸ holds b rfl) (all c)

theorem endsFlatMapM {f : α → Outcome (List β)} {n : Nat} {l : List α}
    (each : ∀ a ∈ l, Ends E (fun bs => bs.length = n) (f a)) :
    Ends E (fun bs => bs.length = l.length * n) (l.flatMapM f) := by
  induction l with
  | nil => exact (Nat.zero_mul n).symm
  | cons a l ih =>
    rw [List.flatMapM_cons]
    refine endsBind (each a (List.mem_cons_self ..)) fun bs length => ?_
    refine endsBind (ih fun a mem => each a (List.mem_cons_of_mem _ mem)) fun rest all => ?_
    show (bs ++ rest).length = _
    rw [List.length_append, List.length_cons, length, all, Nat.succ_mul, Nat.add_comm]

theorem endsMapMLength {f : α → Outcome β} {l : List α} {n : Nat} (length : l.length = n)
    (each : ∀ a ∈ l, Ends E (fun _ => True) (f a)) :
    Ends E (fun bs => bs.length = n) (l.mapM f) := by
  induction l generalizing n with
  | nil => exact length
  | cons a l ih =>
    rw [List.mapM_cons]
    refine endsBind (each a (List.mem_cons_self ..)) fun b _ => ?_
    refine endsBind (ih rfl fun a mem => each a (List.mem_cons_of_mem _ mem)) fun bs same => ?_
    exact (congrArg (· + 1) same).trans length

end Outcome

abbrev Work (σ α : Type) := ExceptT Problem (StateM σ) α

namespace Work
variable {σ α β : Type} {P : α → Prop} {Q : β → Prop}

theorem runBind (m : Work σ α) (f : α → Work σ β) (s : σ) :
    (m >>= f).run s = match m.run s with
      | (.ok a, t) => (f a).run t
      | (.error p, t) => (.error p, t) := by
  show (ExceptT.bind m f).run s = _
  simp only [ExceptT.bind, ExceptT.run, ExceptT.mk, bind, StateT.bind]
  cases (m s : Outcome α × σ) with
  | mk x t => cases x <;> rfl

theorem runGet (s : σ) : (get : Work σ σ).run s = (.ok s, s) := rfl

theorem runModify (g : σ → σ) (s : σ) : (modify g : Work σ PUnit).run s = (.ok ⟨⟩, g s) := rfl

theorem runPure (a : α) (s : σ) : (pure a : Work σ α).run s = (.ok a, s) := rfl

def Yields (P : α → Prop) (m : Work σ α) : Prop := ∀ s, Outcome.Yields P (m.run s).1

def Safe (m : Work σ α) : Prop := Yields (fun _ => True) m

theorem yieldsPure {a : α} (holds : P a) : Yields P (pure a : Work σ α) := fun _ => holds

theorem yieldsThrow {p : Problem} (expected : p.Expected) : Yields P (throw p : Work σ α) :=
  fun _ => expected

theorem yieldsMk {x : Outcome α} (h : x.Yields P) : Yields P (ExceptT.mk (pure x) : Work σ α) :=
  fun _ => h

theorem yieldsBind {m : Work σ α} {f : α → Work σ β} (first : Yields P m)
    (next : ∀ a, P a → Yields Q (f a)) : Yields Q (m >>= f) := by
  intro s
  rw [runBind]
  have h := first s
  cases run : m.run s with
  | mk x t =>
    rw [run] at h
    cases x with
    | ok a => exact next a h t
    | error p => exact h

theorem safeBind {m : Work σ α} {f : α → Work σ β} (first : Safe m) (next : ∀ a, Yields Q (f a)) :
    Yields Q (m >>= f) := yieldsBind first fun a _ => next a

theorem safePure (a : α) : Safe (pure a : Work σ α) := fun _ => trivial
theorem safeGet : Safe (get : Work σ σ) := fun _ => trivial
theorem safeSet (s : σ) : Safe (set s : Work σ PUnit) := fun _ => trivial

theorem safeThrow {p : Problem} (expected : p.Expected) : Safe (throw p : Work σ α) :=
  fun _ => expected

theorem yieldsThrowBind {p : Problem} (expected : p.Expected) (f : α → Work σ β) :
    Yields Q (throw p >>= f : Work σ β) := fun _ => expected

end Work
end SceneStream
