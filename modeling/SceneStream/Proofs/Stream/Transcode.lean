import SceneStream.Command.Convert
import SceneStream.Proofs.Stream.Image
import SceneStream.Proofs.Stream.RoundTrip

/-! A decoded stream written again. All that decoding gives has a form that is read back as the same
entry, but for one carriage return at the end of a comment. -/
namespace SceneStream.Stream

/-- An entry without what is not written: its line, and the types that its values were read as. -/
def Entry.settled : Entry → Entry
  | .request r => .request { r with line := 0, params := r.params.map Parameter.settled }
  | .comment c => .comment { c with line := 0 }

/-- The values of an entry have a form in the encoding. -/
def ValuesFit (e : Encoding) : Entry → Prop
  | .request r => ∀ p ∈ r.params, ValuesWritable e p.values
  | .comment _ => True

instance (e : Encoding) : (x : Entry) → Decidable (ValuesFit e x)
  | .request r => inferInstanceAs (Decidable (∀ p ∈ r.params, ValuesWritable e p.values))
  | .comment _ => inferInstanceAs (Decidable True)

theorem settledWritable {e : Encoding} {p : Parameter} (shaped : ParamShaped p)
    (fits : ValuesWritable e p.values) : ParamWritable e (Parameter.settled p) :=
  ⟨shaped.lone, shaped.empty, rfl, fits⟩

theorem rewrittenUnplaced (x : Entry) : Entry.unplaced (Entry.rewritten x) = Entry.rewritten x := by
  cases x <;> rfl

theorem encodeRewrites {e : Encoding} {l : List Entry} (relayed : ∀ x ∈ l, EntryRelayed e x)
    (shaped : ∀ r, .request r ∈ l → ∀ p ∈ r.params, ParamShaped p) :
    (decode (encode e l)).map Item.unplaced = l.map fun x => .ok (Entry.rewritten x) := by
  have writable : ∀ r, .request r ∈ l.map Entry.rewritten → ∀ p ∈ r.params, ParamWritable e p := by
    intro r member p inside
    obtain ⟨x, there, same⟩ := List.mem_map.mp member
    cases x with
    | comment c => contradiction
    | request r' =>
      cases Entry.request.inj same
      obtain ⟨q, own, rfl⟩ := List.mem_map.mp inside
      exact settledWritable (shaped r' there q own) (relayed _ there q own)
  obtain ⟨known, reads⟩ := encodeReads relayed [] []
  obtain ⟨xs, tokens, results⟩ := readsAll reads
  rw [← List.flatMap_map] at tokens
  obtain ⟨phase, out, delivers⟩ := entriesTaken writable tokens .idle
  rw [decodeRun, results, deliversItems delivers]
  simp [rewrittenUnplaced]

theorem decodedEntry {bytes : Bytes} {x : Entry} (member : x ∈ Command.entries (decode bytes)) :
    .ok x ∈ decode bytes := by
  obtain ⟨item, inside, same⟩ := List.mem_filterMap.mp member
  cases item with
  | error p => contradiction
  | ok y =>
    cases Option.some.inj same
    exact inside

theorem withoutReturnSame (s : String) :
    withoutReturn s = s ↔ s.toList.getLast? ≠ some '\r' := by
  refine ⟨fun same last => ?_, withoutReturnKept⟩
  obtain ⟨front, whole⟩ := List.getLast?_eq_some_iff.mp last
  have shorter : (withoutReturn s).toList = front := by
    unfold withoutReturn
    rw [whole, List.reverse_append]
    simp
  rw [same, whole] at shorter
  have := congrArg List.length shorter
  simp at this

theorem rewrittenSettled (x : Entry) :
    Entry.rewritten x = Entry.settled x ↔
      ∀ c, x = .comment c → c.text.toList.getLast? ≠ some '\r' := by
  cases x with
  | request r => simp [Entry.rewritten, Entry.settled]
  | comment c => simp [Entry.rewritten, Entry.settled, withoutReturnSame]

/-- Every entry that decoding gives comes back once it is written, in the same place and with nothing
between; nothing is lost exactly if no comment ends in a carriage return. -/
theorem transcodeKeepsEntries (bytes : Bytes) (e : Encoding)
    (fits : ∀ x ∈ Command.entries (decode bytes), ValuesFit e x) :
    (decode (encode e (Command.entries (decode bytes)))).map Item.unplaced =
      (Command.entries (decode bytes)).map (fun x => .ok (Entry.rewritten x)) ∧
    ((decode (encode e (Command.entries (decode bytes)))).map Item.unplaced =
        (Command.entries (decode bytes)).map (fun x => .ok (Entry.settled x)) ↔
      ∀ c, .comment c ∈ Command.entries (decode bytes) → c.text.toList.getLast? ≠ some '\r') := by
  have relayed : ∀ x ∈ Command.entries (decode bytes), EntryRelayed e x := by
    intro x member
    cases x with
    | request r => exact fits _ member
    | comment c => exact decodedComment (decodedEntry member)
  have back := encodeRewrites relayed fun r member => decodedParameters (decodedEntry member)
  refine ⟨back, ?_⟩
  rw [back, List.map_inj_left]
  simp only [Except.ok.injEq, rewrittenSettled]
  exact ⟨fun all c member => all _ member c rfl, fun all x member c same => all c (same ▸ member)⟩

def remarkedColor : Bytes := bytesOf "Color [1 0.5 0] # note\n"

theorem remarkedColorFits : ∀ x ∈ Command.entries (decode remarkedColor), ValuesFit .text x := by
  decide +kernel

theorem remarkedColorTranscoded :
    (∀ x ∈ Command.entries (decode remarkedColor), ValuesFit .text x) ∧
    (decode (encode .text (Command.entries (decode remarkedColor)))).map Item.unplaced = [
      .ok (.request ⟨.color, 0, [.of (.floats [.one, ⟨0x3f000000⟩, .zero]) true]⟩),
      .ok (.comment ⟨" note", false, 0⟩)] :=
  ⟨remarkedColorFits, (transcodeKeepsEntries remarkedColor .text remarkedColorFits).1⟩

/-- A comment whose line ends in two carriage returns keeps one of them, and loses it to the next
reader. -/
theorem returnLost :
    Command.entries (decode (bytesOf "#a\r\r\n")) = [.comment ⟨"a\r", false, 1⟩] ∧
    ∀ e, decode (encode e [.comment ⟨"a\r", false, 1⟩]) = [remark ⟨"a", false, 1⟩] := by
  refine ⟨rfl, fun e => ?_⟩
  cases e <;> rfl

end SceneStream.Stream
