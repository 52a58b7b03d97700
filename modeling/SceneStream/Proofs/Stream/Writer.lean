import SceneStream.Proofs.Stream.Line
import SceneStream.Proofs.Stream.Packed

/-! What a writer puts out is read as the tokens of its entries. The reader knows every short form that
the writer has defined; it may know others from before, but the writer recalls none that it has not
defined itself. -/
namespace SceneStream.Stream

structure Agrees (w : Writer) (known : Known) : Prop where
  names : ∀ code k, w.names[code]? = some k → known.lookup (.request (UInt8.ofNat code)) = some k.name
  codes : w.names.length ≤ 0x100
  strings : ∀ s id, w.strings.lookup s = some id →
    id < w.strings.length ∧ known.lookup (.string (UInt16.ofNat id)) = some s
  ids : w.strings.length ≤ 0x10000

theorem startAgrees (known : Known) : Agrees .start known :=
  ⟨fun _ _ found => by simp [Writer.start] at found, Nat.zero_le _,
    fun _ _ found => by simp [Writer.start] at found, Nat.zero_le _⟩

theorem nameAgrees {w : Writer} {known : Known} (agrees : Agrees w known) (k : RequestKind)
    (room : w.names.length < 0x100) :
    Agrees { w with names := w.names ++ [k] }
      ((.request (UInt8.ofNat w.names.length), k.name) :: known) where
  names := by
    intro code k' found
    rw [List.getElem?_append] at found
    split at found
    · rename_i inside
      have other : Slot.request (UInt8.ofNat code) ≠ .request (UInt8.ofNat w.names.length) := by
        intro same
        have value := congrArg UInt8.toNat (Slot.request.inj same)
        simp only [UInt8.toNat_ofNat'] at value
        omega
      rw [List.lookup_cons, beq_false_of_ne other]
      exact agrees.names code k' found
    · obtain ⟨at_, same⟩ := List.getElem?_eq_some_iff.mp found
      have last : code = w.names.length := by
        simp only [List.length_singleton] at at_
        omega
      subst last
      simp only [List.getElem_singleton] at same
      rw [List.lookup_cons_self, same]
  codes := by
    simp only [List.length_append, List.length_singleton]
    omega
  strings := by
    intro s id found
    obtain ⟨bound, there⟩ := agrees.strings s id found
    exact ⟨bound, there⟩
  ids := agrees.ids

theorem stringAgrees {w : Writer} {known : Known} (agrees : Agrees w known) (s : String)
    (room : w.strings.length < 0x10000) :
    Agrees { w with strings := (s, w.strings.length) :: w.strings }
      ((.string (UInt16.ofNat w.strings.length), s) :: known) where
  names := by
    intro code k found
    exact agrees.names code k found
  codes := agrees.codes
  strings := by
    intro s' id found
    rw [List.lookup_cons] at found
    split at found
    · rename_i same
      cases Option.some.inj found
      refine ⟨Nat.lt_succ_self _, ?_⟩
      rw [List.lookup_cons_self, beq_iff_eq.mp same]
    · obtain ⟨bound, there⟩ := agrees.strings s' id found
      have other : Slot.string (UInt16.ofNat id) ≠ .string (UInt16.ofNat w.strings.length) := by
        intro same
        have value := congrArg UInt16.toNat (Slot.string.inj same)
        simp only [UInt16.toNat_ofNat'] at value
        omega
      rw [List.lookup_cons, beq_false_of_ne other]
      exact ⟨Nat.lt_succ_of_lt bound, there⟩
  ids := room

/-- Bytes that a writer puts out, and what it is after them: whatever comes next, they are read as these
tokens by any reader that agrees with the writer. -/
def Emits (w : Writer) (out : Bytes × Writer) (tokens : List Token) : Prop :=
  ∀ known rest, Agrees w known → ∃ known', Reads known out.1 rest tokens known' ∧ Agrees out.2 known'

theorem emitsNothing (w : Writer) : Emits w ([], w) [] :=
  fun known rest agrees => ⟨known, readsNothing known rest, agrees⟩

theorem emitsAppend {w w' w'' : Writer} {a b : Bytes} {ts us : List Token}
    (first : Emits w (a, w') ts) (second : Emits w' (b, w'') us) : Emits w (a ++ b, w'') (ts ++ us) := by
  intro known rest agrees
  obtain ⟨known₁, head, agrees₁⟩ := first known (b ++ rest) agrees
  obtain ⟨known₂, tail, agrees₂⟩ := second known₁ rest agrees₁
  exact ⟨known₂, readsAppend head tail, agrees₂⟩

theorem emitsFirst {w w' w'' : Writer} {a b : Bytes} {t : Token} {ts : List Token}
    (first : Emits w (a, w') [t]) (later : Emits w' (b, w'') ts) : Emits w (a ++ b, w'') (t :: ts) :=
  emitsAppend first later

theorem emitsToken {w : Writer} {a : Bytes} {t : Token} (spells : ∀ rest, Spells a rest (.token t)) :
    Emits w (a, w) [t] :=
  fun known rest agrees => ⟨known, readsToken (spells rest), agrees⟩

theorem emitsTokens {α : Type} {w : Writer} {f : α → Bytes} {token : α → Token} {l : List α}
    (each : ∀ x ∈ l, ∀ rest, Spells (f x) rest (.token (token x))) :
    Emits w (l.flatMap f, w) (l.map token) := by
  induction l with
  | nil => exact emitsNothing w
  | cons x l ih =>
    exact emitsFirst (emitsToken (each x (by simp)))
      (ih fun y member => each y (by simp [member]))

theorem emitsEach {α : Type} {f : Writer → α → Bytes × Writer} {tokens : α → List Token} {l : List α}
    (each : ∀ x ∈ l, ∀ w, Emits w (f w x) (tokens x)) (w : Writer) :
    Emits w (Writer.each f w l) (l.flatMap tokens) := by
  induction l generalizing w with
  | nil => exact emitsNothing w
  | cons x l ih =>
    exact emitsAppend (each x (by simp) w) (ih (fun y member => each y (by simp [member])) (f w x).2)

theorem emitsBracketed {w : Writer} {out : Bytes × Writer} {tokens : List Token}
    (inside : Emits w out tokens) :
    Emits w (Writer.bracketed true out.1, out.2) (.opening :: tokens ++ [.closing]) := by
  intro known rest agrees
  obtain ⟨known', reads, agrees'⟩ := inside known (93 :: rest) agrees
  exact ⟨known', bracketedReads reads, agrees'⟩

/-! Requests in binary. -/

theorem nameEmits (w : Writer) (k : RequestKind) : Emits w (w.requestName k) [.name k.name] := by
  intro known rest agrees
  unfold Writer.requestName
  split
  · rename_i code found
    obtain ⟨inside, same, -⟩ := List.idxOf?_eq_some_iff.mp found
    have there := agrees.names code k (List.getElem?_eq_some_iff.mpr ⟨inside, same⟩)
    exact ⟨known, readsRecall (requestRecalled _) there, agrees⟩
  · dsimp only
    split
    · rename_i room
      have short : (bytesOf k.name).length < 2 ^ 32 := by
        rw [nameBytes, List.length_map]
        exact Nat.lt_trans (nameLetters k).2.1 (by decide)
      refine ⟨_, ?_, nameAgrees agrees k room⟩
      exact readsSilent
        (readsDefine (a := [0xcc, UInt8.ofNat w.names.length]) (requestDefined _) (literalPacked short))
        (readsRecall (requestRecalled _) (List.lookup_cons_self ..))
    · exact ⟨known, readsAppend (readsToken (nameSpells k (closedCons (.inl rfl) rest)))
        (readsBlank rfl), agrees⟩

theorem stringEmits {s : String} (short : (bytesOf s).length < 2 ^ 32) (w : Writer) :
    Emits w (w.string s) [.string s] := by
  intro known rest agrees
  have plain : Reads known (Writer.literal s) rest [.string s] known := readsToken (literalPacked short)
  unfold Writer.string
  split
  · exact ⟨known, plain, agrees⟩
  split
  · rename_i id found
    obtain ⟨bound, there⟩ := agrees.strings s id found
    have ids := agrees.ids
    exact ⟨known, readsRecall (stringRecalled (by omega)) there, agrees⟩
  · dsimp only
    split
    · rename_i room
      refine ⟨_, ?_, stringAgrees agrees s room⟩
      exact readsSilent
        (readsDefine (stringDefined room) (literalPacked short))
        (readsRecall (stringRecalled room) (List.lookup_cons_self ..))
    · exact ⟨known, plain, agrees⟩

theorem paramEmits {p : Parameter} (fits : ValuesWritable .binary p.values) (w : Writer) :
    Emits w (w.param p) (paramTokens .binary p) := by
  obtain ⟨values, isArray, source⟩ := p
  unfold Writer.param paramTokens
  cases values with
  | floats l =>
    cases isArray with
    | true => exact emitsToken fun rest => floatsPacked fits
    | false => exact emitsTokens fun x _ rest => floatPacked x
  | integers l =>
    have body : Emits w (l.flatMap Writer.integer, w) (l.map .integer) :=
      emitsTokens fun n _ rest => integerPacked n
    cases isArray with
    | true => exact emitsBracketed body
    | false => exact body
  | strings l =>
    have body : Emits w (Writer.each Writer.string w l) (l.flatMap fun s => [.string s]) :=
      emitsEach (fun s member => stringEmits (fits s member)) w
    rw [← List.map_eq_flatMap] at body
    cases isArray with
    | true => exact emitsBracketed body
    | false => exact body

theorem requestEmits {r : Request} (writable : ∀ p ∈ r.params, ValuesWritable .binary p.values)
    (w : Writer) :
    Emits w (w.request r) (entryTokens .binary (.request r)) :=
  emitsFirst (nameEmits w r.kind)
    (emitsEach (fun p member => paramEmits (writable p member)) _)

/-! Entries. -/

def EntryRelayed (e : Encoding) : Entry → Prop
  | .request r => ∀ p ∈ r.params, ValuesWritable e p.values
  | .comment c => CommentWhole c

theorem entryEmits {e : Encoding} {x : Entry} (relayed : EntryRelayed e x) (w : Writer) :
    Emits w (Writer.entry e w x) (entryTokens e (Entry.rewritten x)) := by
  cases x with
  | comment c => exact emitsToken (commentSpells relayed)
  | request r =>
    have tokens : entryTokens e (Entry.rewritten (.request r)) = entryTokens e (.request r) :=
      congrArg (_ :: ·) (settledTokens e r.params)
    rw [tokens]
    cases e with
    | text => exact fun known rest agrees => ⟨known, requestTextReads relayed rest, agrees⟩
    | binary => exact requestEmits relayed w

/-- A whole chunk, by any reader: a fresh writer recalls nothing of what came before. -/
theorem encodeReads {e : Encoding} {l : List Entry} (relayed : ∀ x ∈ l, EntryRelayed e x)
    (known : Known) (rest : Bytes) :
    ∃ known', Reads known (encode e l) rest
      (l.flatMap fun x => entryTokens e (Entry.rewritten x)) known' := by
  obtain ⟨known', reads, -⟩ := emitsEach (fun x member => entryEmits (relayed x member)) .start
    known rest (startAgrees known)
  exact ⟨known', reads⟩

theorem writableRelayed {e : Encoding} {x : Entry} (writable : EntryWritable e x) :
    EntryRelayed e x := by
  cases x with
  | comment c => exact ⟨writable.oneLine, writable.unmarked⟩
  | request r => exact fun p member => (writable p member).values

theorem writableTokens {e : Encoding} {l : List Entry} (writable : ∀ x ∈ l, EntryWritable e x) :
    (l.flatMap fun x => entryTokens e (Entry.rewritten x)) = l.flatMap (entryTokens e) := by
  rw [List.flatMap_def, List.flatMap_def]
  congr 1
  apply List.map_congr_left
  intro x member
  cases x with
  | comment c =>
    have own : CommentWritable c := writable _ member
    simp only [Entry.rewritten, entryTokens, withoutReturnKept own.noReturn]
  | request r => exact congrArg (_ :: ·) (settledTokens e r.params)

end SceneStream.Stream
