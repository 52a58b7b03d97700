import SceneStream.Stream.Token

/-! One element after the other. Each leaves a proper suffix of the bytes, so the bytes themselves are
fuel enough, and what is scanned from a place does not depend on what came before it. -/
namespace SceneStream.Stream

theorem textWhileSuffix (p : UInt8 → Bool) (c : Cursor) : (c.textWhile p).2.rest <:+ c.rest :=
  List.dropWhile_suffix p

theorem placesSuffix (c : Cursor) : (places c).2.rest <:+ c.rest := by
  unfold places
  split
  · rename_i rest point
    rw [point]
    exact (textWhileSuffix isDigit ⟨rest, c.line⟩).trans (List.suffix_cons 46 rest)
  · exact List.suffix_rfl

theorem powerSuffix (c : Cursor) : (power c).2.rest <:+ c.rest := by
  unfold power
  split
  · rename_i e rest letter
    rw [letter]
    split
    · cases rest with
      | nil => exact (textWhileSuffix isDigit ⟨[], c.line⟩).trans (List.suffix_cons e [])
      | cons s rest =>
        dsimp only
        split
        · exact (textWhileSuffix isDigit ⟨rest, c.line⟩).trans
            ((List.suffix_cons s rest).trans (List.suffix_cons e _))
        · exact (textWhileSuffix isDigit ⟨s :: rest, c.line⟩).trans (List.suffix_cons e _)
    · simp [letter]
  · exact List.suffix_rfl

theorem numberTextSuffix (b : UInt8) (c : Cursor) : (numberText b c).2.rest <:+ c.rest := by
  have whole := textWhileSuffix isDigit c
  unfold numberText
  dsimp only
  split
  · exact (powerSuffix _).trans whole
  · exact (powerSuffix _).trans ((placesSuffix _).trans whole)

theorem stringBodySuffix (inside : Inside) (done : Bytes) (line : Nat) (bytes : Bytes) :
    (stringBody inside done line bytes).2.rest <:+ bytes := by
  induction bytes generalizing inside done line with
  | nil => exact List.suffix_rfl
  | cons b rest ih =>
    unfold stringBody
    dsimp only
    split
    · exact List.suffix_cons b rest
    · exact (ih ..).trans (List.suffix_cons b rest)

theorem textByteSuffix {c after : Cursor} {b : UInt8} (h : c.textByte? = some (b, after)) :
    after.rest <:+ c.rest := by
  unfold Cursor.textByte? at h
  split at h
  · contradiction
  · rename_i rest same
    cases Option.some.inj h
    rw [same]
    exact List.suffix_cons _ rest

def commentBody (structured : Bool) (c : Cursor) : Element × Cursor × Bool :=
  let (text, c) := c.textWhile (· != newline)
  let e := Element.token (.comment (withoutReturn (Text.Utf8.decode text)) structured)
  match c.textByte? with
  | some (_, c) => (e, c, false)
  | none => (e, c, true)

def commentMarks (c : Cursor) : Bool × Cursor :=
  match c.rest with
  | 35 :: rest => (true, ⟨rest, c.line⟩)
  | _ => (false, c)

theorem commentMarked (c : Cursor) :
    comment c = commentBody (commentMarks c).1 (commentMarks c).2 := rfl

theorem commentBodySuffix (structured : Bool) (c : Cursor) :
    (commentBody structured c).2.1.rest <:+ c.rest := by
  have text := textWhileSuffix (· != newline) c
  unfold commentBody
  dsimp only
  split
  · exact (textByteSuffix ‹_›).trans text
  · exact text

theorem commentSuffix (c : Cursor) : (comment c).2.1.rest <:+ c.rest := by
  have body := commentBodySuffix (commentMarks c).1 (commentMarks c).2
  have marks : (commentMarks c).2.rest <:+ c.rest := by
    unfold commentMarks
    split
    · rename_i rest hash
      rw [hash]
      exact List.suffix_cons 35 rest
    · exact List.suffix_rfl
  rw [commentMarked]
  exact body.trans marks

theorem payloadSuffix (n : Nat) (c : Cursor) : (c.payload n).2.rest <:+ c.rest := by
  unfold Cursor.payload
  split
  · rename_i bytes rest found
    obtain ⟨new, -, whole, -⟩ := Cursor.takeExactlySound n [] c.rest bytes rest found
    exact ⟨new, whole.symm⟩
  · exact List.nil_suffix

theorem sizedSuffix (n : Nat) (c : Cursor) (make : Bytes → Element) :
    (sized n c make).2.1.rest <:+ c.rest := by
  have all := payloadSuffix n c
  unfold sized
  split <;> (rename_i same; rw [same] at all; exact all)

theorem countedSuffix (width unit : Nat) (c : Cursor) (make : Bytes → Element) :
    (counted width unit c make).2.1.rest <:+ c.rest := by
  have length := payloadSuffix width c
  unfold counted
  split
  · rename_i same
    rw [same] at length
    exact (sizedSuffix _ _ make).trans length
  · rename_i same
    rw [same] at length
    exact length

def Faultless (make : Bytes → Element) : Prop := ∀ bytes f, make bytes ≠ .fault f

def Wordless (e : Element) : Prop := ∀ text structured, e ≠ .token (.comment text structured)

structure Packs (make : Bytes → Element) : Prop where
  faultless : Faultless make
  wordless : ∀ bytes, Wordless (make bytes)

theorem tokenWordless {t : Token} (other : ∀ text structured, t ≠ .comment text structured) :
    Wordless (.token t) :=
  fun text structured same => other text structured (Element.token.inj same)

theorem packsToken {make : Bytes → Token}
    (other : ∀ bytes text structured, make bytes ≠ .comment text structured) :
    Packs fun bytes => .token (make bytes) :=
  ⟨fun _ _ => Element.noConfusion, fun bytes => tokenWordless (other bytes)⟩

theorem packsDefine (make : Bytes → Slot) : Packs (.define ∘ make) :=
  ⟨fun _ _ => Element.noConfusion, fun _ _ _ => Element.noConfusion⟩

theorem packsRecall (make : Bytes → Slot) : Packs (.recall ∘ make) :=
  ⟨fun _ _ => Element.noConfusion, fun _ _ _ => Element.noConfusion⟩

theorem packsString : Packs stringElement := packsToken fun _ _ _ => Token.noConfusion

theorem packsFixed (places : Nat) : Packs (fixedPoint places) := by
  refine packsToken fun bytes text structured => ?_
  split <;> exact Token.noConfusion

inductive BinaryShape (c : Cursor) : Element × Cursor × Bool → Prop where
  | sized (n : Nat) {make : Bytes → Element} (clean : Packs make) : BinaryShape c (sized n c make)
  | counted (width unit : Nat) {make : Bytes → Element} (clean : Packs make) :
      BinaryShape c (counted width unit c make)
  | reserved : BinaryShape c (.reserved, c, false)

theorem binaryShape (op : UInt8) (c : Cursor) : BinaryShape c (binary op c) := by
  unfold binary
  refine iteInduction (fun _ => .sized _ (packsFixed _)) fun _ => ?_
  refine iteInduction (fun _ => .sized _ packsString) fun _ => ?_
  refine iteInduction (fun _ => .counted _ _ packsString) fun _ => ?_
  refine iteInduction (fun _ => .sized _ (packsToken fun _ _ _ => Token.noConfusion)) fun _ => ?_
  refine iteInduction (fun _ => .sized _ (packsToken fun _ _ _ => Token.noConfusion)) fun _ => ?_
  refine iteInduction (fun _ => .sized _ (packsRecall _)) fun _ => ?_
  refine iteInduction (fun _ => .reserved) fun _ => ?_
  refine iteInduction (fun _ => .counted _ _ (packsToken fun _ _ _ => Token.noConfusion)) fun _ => ?_
  refine iteInduction (fun _ => .sized _ (packsDefine _)) fun _ => ?_
  refine iteInduction (fun _ => .sized _ (packsDefine _)) fun _ => ?_
  refine iteInduction (fun _ => .sized _ (packsDefine _)) fun _ => ?_
  refine iteInduction (fun _ => .sized _ (packsRecall _)) fun _ => ?_
  exact iteInduction (fun _ => .sized _ (packsRecall _)) fun _ => .reserved

theorem binarySuffix (op : UInt8) (c : Cursor) : (binary op c).2.1.rest <:+ c.rest := by
  have shape := binaryShape op c
  generalize binary op c = x at shape ⊢
  cases shape with
  | sized => exact sizedSuffix ..
  | counted => exact countedSuffix ..
  | reserved => exact List.suffix_rfl

theorem elementAtSuffix (b : UInt8) (c : Cursor) : (elementAt b c).2.1.rest <:+ c.rest := by
  have string := stringBodySuffix .plain [] c.line c.rest
  unfold elementAt
  split
  · exact binarySuffix b c
  split
  · exact List.suffix_rfl
  split
  · exact List.suffix_rfl
  split
  · exact commentSuffix c
  split
  · split <;> (rename_i same; rw [same] at string; exact string)
  split
  · exact numberTextSuffix b c
  split
  · exact textWhileSuffix continuesName c
  · exact List.suffix_rfl

theorem scanShorter {c : Cursor} {s : Scan} (h : scan? c = some s) :
    s.after.rest.length < c.rest.length := by
  have blanks := (textWhileSuffix isBlank c).length_le
  unfold scan? at h
  dsimp only at h
  split at h
  · contradiction
  · rename_i b rest same
    have element := (elementAtSuffix b ⟨rest, (c.textWhile isBlank).2.line⟩).length_le
    cases Option.some.inj h
    rw [same, List.length_cons] at blanks
    exact Nat.lt_of_lt_of_le (Nat.lt_succ_of_le element) blanks

theorem scanAllDone (fuel : Nat) (done : List Scan) (c : Cursor) :
    scanAll fuel done c = done.reverse ++ scanAll fuel [] c := by
  induction fuel generalizing done c with
  | zero => simp [scanAll]
  | succ fuel ih =>
    unfold scanAll
    cases scan? c with
    | none => simp
    | some s =>
      simp only
      rw [ih (s :: done), ih [s]]
      simp

theorem scanAllEnough (fuel more : Nat) (c : Cursor) (enough : c.rest.length ≤ fuel)
    (too : c.rest.length ≤ more) : scanAll fuel [] c = scanAll more [] c := by
  induction fuel generalizing more c with
  | zero =>
    have none : scan? c = none := by
      cases h : scan? c with
      | none => rfl
      | some s => have := scanShorter h; omega
    cases more <;> simp [scanAll, none]
  | succ fuel ih =>
    cases h : scan? c with
    | none => cases more <;> simp [scanAll, h]
    | some s =>
      have shorter := scanShorter h
      cases more with
      | zero => omega
      | succ more =>
        simp only [scanAll, h]
        rw [scanAllDone fuel, scanAllDone more, ih more s.after (by omega) (by omega)]

def scansFrom (c : Cursor) : List Scan := scanAll c.rest.length [] c

theorem scansFromStep (c : Cursor) : scansFrom c =
    match scan? c with
    | none => []
    | some s => s :: scansFrom s.after := by
  unfold scansFrom
  cases h : scan? c with
  | none => cases c.rest.length <;> simp [scanAll, h]
  | some s =>
    have shorter := scanShorter h
    obtain ⟨n, size⟩ : ∃ n, c.rest.length = n + 1 := ⟨c.rest.length - 1, by omega⟩
    simp only [size, scanAll, h]
    rw [scanAllDone, scanAllEnough n s.after.rest.length s.after (by omega) (Nat.le_refl _)]
    rfl

end SceneStream.Stream
