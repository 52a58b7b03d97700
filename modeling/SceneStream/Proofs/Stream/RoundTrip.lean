import SceneStream.Proofs.Stream.Writer

/-! Streams of chunks, each in an encoding of its own and from a writer of its own. Decoding gives back
all entries in their order, and nothing else; only the lines are those of the stream. -/
namespace SceneStream.Stream

structure Chunk where
  encoding : Encoding
  entries : List Entry

namespace Chunk

def bytes (c : Chunk) : Bytes := encode c.encoding c.entries
def Writable (c : Chunk) : Prop := ∀ x ∈ c.entries, EntryWritable c.encoding x
instance (c : Chunk) : Decidable c.Writable :=
  inferInstanceAs (Decidable (∀ x ∈ c.entries, EntryWritable c.encoding x))

def tokens (c : Chunk) : List Token := c.entries.flatMap (entryTokens c.encoding)

end Chunk

theorem chunksRead {chunks : List Chunk} (writable : ∀ c ∈ chunks, c.Writable) (known : Known)
    (rest : Bytes) :
    ∃ known', Reads known (chunks.flatMap Chunk.bytes) rest (chunks.flatMap Chunk.tokens) known' := by
  induction chunks generalizing known with
  | nil => exact ⟨known, readsNothing known rest⟩
  | cons c chunks ih =>
    have own := writable c (by simp)
    obtain ⟨known₁, first⟩ := encodeReads (fun x member => writableRelayed (own x member)) known
      (chunks.flatMap Chunk.bytes ++ rest)
    rw [writableTokens own] at first
    obtain ⟨known₂, others⟩ := ih (fun d member => writable d (by simp [member])) known₁
    exact ⟨known₂, readsAppend first others⟩

theorem readsAll {bytes : Bytes} {tokens : List Token} {known : Known}
    (reads : Reads [] bytes [] tokens known) :
    ∃ xs : List Lexeme, xs.map Lexeme.token = tokens ∧
      (lexed bytes).map Lexed.result = xs.map .ok := by
  obtain ⟨xs, line, same, read⟩ := reads (lastLine bytes) 1
  refine ⟨xs, same, ?_⟩
  rw [List.append_nil] at read
  rw [lexedStart]
  refine read.trans ?_
  rw [lexedFromEnd rfl]
  exact List.append_nil _

theorem deliversAppend {xs ys : List Lexeme} {l m : List Entry} {p q r : Phase} {out more : List Item}
    (first : Delivers xs l p q out) (second : Delivers ys m q r more) :
    Delivers (xs ++ ys) (l ++ m) p r (out ++ more) where
  clean := second.clean
  run rest := by rw [List.map_append, List.append_assoc, first.run, second.run, List.append_assoc]
  items := by
    rw [List.append_assoc, List.map_append, second.items, ← List.append_assoc, ← List.map_append, first.items,
      List.append_assoc, ← List.map_append]

theorem entriesTaken {e : Encoding} {l : List Entry}
    (writable : ∀ r, .request r ∈ l → ∀ p ∈ r.params, ParamWritable e p)
    {xs : List Lexeme} (tokens : xs.map Lexeme.token = l.flatMap (entryTokens e)) {phase : Phase}
    (clean : Clean phase) :
    ∃ phase' out, Delivers xs l phase phase' out := by
  induction l generalizing xs phase with
  | nil =>
    cases List.map_eq_nil_iff.mp tokens
    exact ⟨phase, [], clean, fun rest => rfl, by simp⟩
  | cons x l ih =>
    obtain ⟨own, others, rfl, first, later⟩ := List.map_eq_append_iff.mp tokens
    obtain ⟨middle, out, own⟩ := entryTaken (fun r same => writable r (by simp [same])) first clean
    obtain ⟨phase', out', rest⟩ := ih (fun r member => writable r (by simp [member])) later own.clean
    exact ⟨phase', _, deliversAppend own rest⟩

theorem chunksTaken {chunks : List Chunk} (writable : ∀ c ∈ chunks, c.Writable) {xs : List Lexeme}
    (tokens : xs.map Lexeme.token = chunks.flatMap Chunk.tokens) {phase : Phase} (clean : Clean phase) :
    ∃ phase' out, Delivers xs (chunks.flatMap Chunk.entries) phase phase' out := by
  induction chunks generalizing xs phase with
  | nil =>
    cases List.map_eq_nil_iff.mp tokens
    exact ⟨phase, [], clean, fun rest => rfl, by simp⟩
  | cons c chunks ih =>
    obtain ⟨own, others, rfl, first, later⟩ := List.map_eq_append_iff.mp tokens
    obtain ⟨middle, out, own⟩ := entriesTaken (fun r => writable c (by simp) (.request r)) first clean
    obtain ⟨phase', out', rest⟩ := ih (fun d member => writable d (by simp [member])) later own.clean
    exact ⟨phase', _, deliversAppend own rest⟩

theorem deliversItems {xs : List Lexeme} {l : List Entry} {phase' : Phase} {out : List Item}
    (delivers : Delivers xs l .idle phase' out) :
    (itemsRun .idle (xs.map .ok)).map Item.unplaced = l.map fun x => .ok (Entry.unplaced x) := by
  have run := delivers.run []
  rw [List.append_nil] at run
  rw [run]
  exact delivers.items

/-- Every list of chunks is decoded as the entries of all of them, in order and without a problem. -/
theorem decodeChunks {chunks : List Chunk} (writable : ∀ c ∈ chunks, c.Writable) :
    (decode (chunks.flatMap Chunk.bytes)).map Item.unplaced =
      (chunks.flatMap Chunk.entries).map fun x => .ok (Entry.unplaced x) := by
  obtain ⟨known, reads⟩ := chunksRead writable [] []
  obtain ⟨xs, tokens, results⟩ := readsAll reads
  obtain ⟨phase, out, delivers⟩ := chunksTaken writable tokens .idle
  rw [decodeRun, results]
  exact deliversItems delivers

def mixedChunks : List Chunk := [
  ⟨.text, [.comment ⟨" scene", false, 0⟩,
    .request ⟨.color, 0, [.of (.floats [.one, .zero]) true, .of (.strings ["a \"b\""]) false]⟩]⟩,
  ⟨.binary, [.request ⟨.color, 0, [.of (.floats [⟨0x7fc00001⟩]) true, .of (.strings ["ab", "ab"]) true]⟩,
    .comment ⟨"end", true, 0⟩, .request ⟨.sides, 0, [.of (.integers [-2]) false]⟩]⟩]

theorem mixedChunksWritable : ∀ c ∈ mixedChunks, c.Writable := by decide +kernel

theorem mixedChunksDecoded : (∀ c ∈ mixedChunks, c.Writable) ∧
    (decode (mixedChunks.flatMap Chunk.bytes)).map Item.unplaced = [
      .ok (.comment ⟨" scene", false, 0⟩),
      .ok (.request ⟨.color, 0,
        [.of (.floats [.one, .zero]) true, .of (.strings ["a \"b\""]) false]⟩),
      .ok (.request ⟨.color, 0,
        [.of (.floats [⟨0x7fc00001⟩]) true, .of (.strings ["ab", "ab"]) true]⟩),
      .ok (.comment ⟨"end", true, 0⟩),
      .ok (.request ⟨.sides, 0, [.of (.integers [-2]) false]⟩)] :=
  ⟨mixedChunksWritable, decodeChunks mixedChunksWritable⟩

end SceneStream.Stream
