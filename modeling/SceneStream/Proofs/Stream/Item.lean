import SceneStream.Proofs.Stream.Lexeme
import SceneStream.Stream.Item

/-! Items from the results of the lexer alone. Where an item was complete is left out, and so the phases
are a machine over results. -/
namespace SceneStream.Stream

abbrev Result := Except Problem Lexeme

def itemsRun (phase : Phase) : List Result → List Item
  | [] => phase.finish
  | x :: rest => (phase.step x).2 ++ itemsRun (phase.step x).1 rest

theorem itemsFromRun (last : Nat) (phase : Phase) (done : List Placed) (xs : List Lexed) :
    (itemsFrom last phase done xs).map Placed.item =
      done.reverse.map Placed.item ++ itemsRun phase (xs.map Lexed.result) := by
  induction xs generalizing phase done with
  | nil => simp [itemsFrom, itemsRun, Function.comp_def]
  | cons x xs ih =>
    unfold itemsFrom
    simp only [ih, List.map_cons, itemsRun]
    simp [Function.comp_def]

theorem decodeRun (bytes : Bytes) :
    decode bytes = itemsRun .idle ((lexed bytes).map Lexed.result) := by
  simp [decode, Source.items, Source.placed, itemsFromRun, lexed]

/-! A draft takes everything up to the next name. -/

def name? : Result → Option (String × Nat)
  | .ok ⟨.name s, line⟩ => some (s, line)
  | _ => none

def Draft.gather (d : Draft) : Result → Draft
  | .error p => d.fail p
  | .ok l => d.add l

theorem draftingRun {body : List Result} (nameless : ∀ x ∈ body, name? x = none)
    (recoverable : ∀ p, .error p ∈ body → Recoverable p) (d : Draft) (rest : List Result) :
    itemsRun (.drafting d) (body ++ rest) = itemsRun (.drafting (body.foldl Draft.gather d)) rest := by
  induction body generalizing d with
  | nil => rfl
  | cons x body ih =>
    have later := ih (fun y member => nameless y (by simp [member]))
      (fun p member => recoverable p (by simp [member])) (d.gather x)
    have taken : (Phase.drafting d).step x = (.drafting (d.gather x), []) := by
      cases x with
      | error p =>
        have mild := (recoverable p (by simp)).2
        simp [Phase.step, mild, Draft.gather]
      | ok l =>
        have other := nameless (.ok l) (by simp)
        obtain ⟨token, line⟩ := l
        cases token <;> first | rfl | contradiction
    simp only [List.cons_append, itemsRun, taken, List.nil_append, later, List.foldl_cons]

theorem draftingName (d : Draft) (s : String) (line : Nat) (rest : List Result) :
    itemsRun (.drafting d) (.ok ⟨.name s, line⟩ :: rest) =
      d.finish ++ itemsRun (.enter s line) rest := rfl

end SceneStream.Stream
