import SceneStream.Proofs.Stream.Plain

/-! Requests written as text, one to a line. A blank or a bracket stands after each value and each name,
so that none runs into the next. -/
namespace SceneStream.Stream
open Text.Utf8 (encodeAppend)

variable {known : Known}

theorem bytesAppend (s t : String) : bytesOf (s ++ t) = bytesOf s ++ bytesOf t := encodeAppend s t

theorem valuesRead {α : Type} {text : α → String} {token : α → Token} {l : List α}
    (each : ∀ x ∈ l, ∀ rest, Closed rest → Spells (bytesOf (text x)) rest (.token (token x)))
    {rest : Bytes} (closed : Closed rest) :
    Reads known (bytesOf (" ".intercalate (l.map text))) rest (l.map token) known := by
  induction l with
  | nil => exact readsNothing known rest
  | cons x l ih =>
    have later := ih fun y member => each y (by simp [member])
    have first := each x (by simp)
    cases l with
    | nil => exact readsToken (first rest closed)
    | cons y l =>
      rw [List.map_cons, List.map_cons, String.intercalate_cons_cons, bytesAppend, bytesAppend,
        List.append_assoc]
      exact readsFirst (first _ (closedCons (.inl rfl) _)) (readsAfterBlank rfl later)

theorem valueTextsRead {v : Values} (writable : ValuesWritable .text v) {rest : Bytes}
    (closed : Closed rest) :
    Reads known (bytesOf (" ".intercalate (valueTexts v))) rest (valueTokens v) known := by
  cases v with
  | integers l => exact valuesRead (fun n _ _ closed => integerSpells n closed) closed
  | floats l => exact valuesRead (fun x member _ closed => floatSpells (writable x member) closed) closed
  | strings l => exact valuesRead (fun s _ rest _ => quoteSpells s rest) closed

theorem openingSpells (rest : Bytes) : Spells [91] rest (.token .opening) :=
  spellsElement rfl fun line => ⟨line, false, rfl⟩

theorem closingSpells (rest : Bytes) : Spells [93] rest (.token .closing) :=
  spellsElement rfl fun line => ⟨line, false, rfl⟩

theorem bracketedReads {body rest : Bytes} {tokens : List Token} {known' : Known}
    (inside : Reads known body (93 :: rest) tokens known') :
    Reads known ([91] ++ body ++ [93]) rest (.opening :: tokens ++ [.closing]) known' := by
  rw [List.append_assoc, List.cons_append]
  exact readsFirst (openingSpells _)
    (readsAppend inside (readsToken (closingSpells rest)))

theorem paramTextReads {p : Parameter} (writable : ValuesWritable .text p.values) {rest : Bytes}
    (closed : Closed rest) :
    Reads known (bytesOf (paramText p)) rest (paramTokens .text p) known := by
  unfold paramText paramTokens
  dsimp only
  split
  · rw [bytesAppend, bytesAppend]
    exact bracketedReads (valueTextsRead writable (closedCons (.inr rfl) rest))
  · exact valueTextsRead writable closed

theorem joinedBytes (s : String) (l : List String) :
    bytesOf ("".intercalate (s :: l)) = bytesOf s ++ bytesOf ("".intercalate l) := by
  cases l with
  | nil => rw [String.intercalate_singleton, String.intercalate_nil]; exact (List.append_nil _).symm
  | cons t l => rw [String.intercalate_cons_cons, String.append_empty, bytesAppend]

theorem paramTextsRead (known : Known) {ps : List Parameter}
    (writable : ∀ p ∈ ps, ValuesWritable .text p.values)
    (rest : Bytes) :
    Closed (bytesOf ("".intercalate (ps.map fun p => " " ++ paramText p)) ++ newline :: rest) ∧
    Reads known (bytesOf ("".intercalate (ps.map fun p => " " ++ paramText p))) (newline :: rest)
      (ps.flatMap (paramTokens .text)) known := by
  induction ps with
  | nil => exact ⟨closedCons (.inl rfl) rest, readsNothing known _⟩
  | cons p ps ih =>
    obtain ⟨closed, later⟩ := ih fun q member => writable q (by simp [member])
    rw [List.map_cons, joinedBytes, bytesAppend, List.flatMap_cons, List.append_assoc, List.append_assoc]
    refine ⟨closedCons (.inl rfl) _, readsAfterBlank rfl ?_⟩
    exact readsAppend (paramTextReads (writable p (by simp)) closed) later

theorem requestTextReads {r : Request} (writable : ∀ p ∈ r.params, ValuesWritable .text p.values)
    (rest : Bytes) :
    Reads known (bytesOf (requestText r)) rest (entryTokens .text (.request r)) known := by
  obtain ⟨closed, params⟩ := paramTextsRead known writable rest
  have feed : bytesOf "\n" = [newline] := rfl
  unfold requestText
  rw [bytesAppend, bytesAppend, feed, List.append_assoc]
  refine readsFirst (nameSpells r.kind ?_) ?_
  · rw [List.append_assoc]
    exact closed
  · have feed : Reads known [newline] rest [] known := readsBlank rfl
    have line := readsAppend params feed
    rwa [List.append_nil] at line

end SceneStream.Stream
