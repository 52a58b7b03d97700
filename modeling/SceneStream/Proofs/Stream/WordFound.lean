import SceneStream.Proofs.Stream.Guarded
import SceneStream.Proofs.Stream.Word

/-! What is read whole was spelled out: behind blanks stands a word, or a code that stands for nothing. -/
namespace SceneStream.Stream
open Spelling

theorem textWhileFound (p : UInt8 → Bool) (c : Cursor) :
    (∀ b ∈ (c.textWhile p).1, p b = true) ∧ (c.textWhile p).1 ++ (c.textWhile p).2.rest = c.rest :=
  ⟨fun _ member => List.all_eq_true.mp List.all_takeWhile _ member, List.takeWhile_append_dropWhile⟩

/-! Numbers. -/

theorem placesFound (c : Cursor) : Places (places c).1 ∧ (places c).1 ++ (places c).2.rest = c.rest := by
  unfold places
  split
  · rename_i rest point
    obtain ⟨digits, whole⟩ := textWhileFound isDigit ⟨rest, c.line⟩
    rw [point]
    exact ⟨.point digits, congrArg (46 :: ·) whole⟩
  · exact ⟨.none, rfl⟩

theorem powerFound (c : Cursor) : Power (power c).1 ∧ (power c).1 ++ (power c).2.rest = c.rest := by
  unfold power
  split
  · rename_i e rest letter
    rw [letter]
    split
    · rename_i exponent
      have exponent : e = 101 ∨ e = 69 := by simpa using exponent
      cases rest with
      | nil => exact ⟨.plain exponent (textWhileFound isDigit ⟨[], c.line⟩).1, rfl⟩
      | cons s rest =>
        dsimp only
        split
        · rename_i sign
          obtain ⟨digits, whole⟩ := textWhileFound isDigit ⟨rest, c.line⟩
          exact ⟨.signed exponent (by simpa using sign) digits, congrArg (e :: s :: ·) whole⟩
        · obtain ⟨digits, whole⟩ := textWhileFound isDigit ⟨s :: rest, c.line⟩
          exact ⟨.plain exponent digits, congrArg (e :: ·) whole⟩
    · exact ⟨.none, letter⟩
  · exact ⟨.none, rfl⟩

theorem numberFound {b : UInt8} (first : startsNumber b = true) (c : Cursor) :
    ∃ tail, (numberText b c).1 = b :: tail ∧ Numeral (b :: tail) ∧ tail ++ (numberText b c).2.rest = c.rest := by
  obtain ⟨digits, whole⟩ := textWhileFound isDigit c
  unfold numberText
  dsimp only
  by_cases point : b = 46
  · obtain ⟨exponent, behind⟩ := powerFound (c.textWhile isDigit).2
    simp only [point, beq_self_eq_true, if_true, List.append_nil]
    refine ⟨(c.textWhile isDigit).1 ++ (power (c.textWhile isDigit).2).1, rfl, .fraction digits exponent, ?_⟩
    rw [List.append_assoc, behind, whole]
  · have sign : b = 45 ∨ b = 43 ∨ isDigit b = true := by
      simpa [startsNumber, point, or_assoc] using first
    have other : ¬ ((b == 46) = true) := fun same => point (beq_iff_eq.mp same)
    obtain ⟨fraction, between⟩ := placesFound (c.textWhile isDigit).2
    obtain ⟨exponent, behind⟩ := powerFound (places (c.textWhile isDigit).2).2
    simp only [if_neg other]
    refine ⟨(c.textWhile isDigit).1 ++ ((places (c.textWhile isDigit).2).1 ++
      (power (places (c.textWhile isDigit).2).2).1), ?_, .whole sign digits fraction exponent, ?_⟩
    · simp
    · rw [List.append_assoc, List.append_assoc, behind, between, whole]

/-! Strings. -/

inductive Begun : Inside → Bytes → Prop where
  | plain : Begun .plain []
  | escape : Begun .escape [92]
  | octal {ds : Bytes} {more : Bool} (digits : ∀ d ∈ ds, isOctal d = true)
      (some : ds.length = if more then 1 else 2) : Begun (.octal (octal ds) more) (92 :: ds)

theorem octalAppend (ds : Bytes) (d : UInt8) : octal (ds ++ [d]) = octal ds * 8 + (d.toNat - 48) := by
  simp [octal]

section Strings
variable {done content rest : Bytes} {line : Nat} {after : Cursor}

def Closes (p done content bytes : Bytes) (after : Cursor) : Prop :=
  ∃ s t, bytes = s ++ 34 :: after.rest ∧ content = done.reverse ++ t ∧ Quoted (p ++ s) t

def ClosesAll (rest content : Bytes) (after : Cursor) : Prop :=
  ∀ {inside : Inside} {done : Bytes} {line : Nat} {p : Bytes}, Begun inside p →
    stringBody inside done line rest = (some content, after) → Closes p done content rest after

def led (step : StringStep) (line : Nat) (rest : Bytes) : Option Bytes × Cursor :=
  match step with
  | .closed bytes => (some bytes.reverse, ⟨rest, line⟩)
  | .more inside bytes => stringBody inside bytes line rest

theorem plainCloses (b : UInt8) (later : ClosesAll rest content after)
    (read : led (plainStep done b) line rest = (some content, after)) :
    Closes [] done content (b :: rest) after := by
  unfold led plainStep at read
  by_cases quote : b = 34
  · subst quote
    cases read
    exact ⟨[], [], rfl, (List.append_nil _).symm, .nothing⟩
  by_cases escape : b = 92
  · subst escape
    obtain ⟨s, t, rfl, same, inside⟩ := later .escape read
    exact ⟨92 :: s, t, rfl, same, inside⟩
  · simp only [beq_iff_eq, quote, escape, if_false] at read
    obtain ⟨s, t, rfl, same, inside⟩ := later .plain read
    exact ⟨b :: s, b :: t, rfl, by simp [same], .plain quote escape inside⟩

theorem escapeCloses (b : UInt8) (later : ClosesAll rest content after)
    (read : led (stringStep .escape done b) line rest = (some content, after)) :
    Closes [92] done content (b :: rest) after := by
  unfold led stringStep at read
  by_cases feed : b = newline
  · subst feed
    obtain ⟨s, t, rfl, same, inside⟩ := later .plain read
    exact ⟨newline :: s, t, rfl, same, .continued inside⟩
  by_cases digit : isOctal b = true
  · simp only [beq_iff_eq, feed, digit, if_false, if_true] at read
    have begun : Begun (.octal (octal [b]) true) [92, b] := .octal (by simpa using digit) rfl
    obtain ⟨s, t, rfl, same, inside⟩ := later begun (by simpa [octal] using read)
    exact ⟨b :: s, t, rfl, same, inside⟩
  · simp only [beq_iff_eq, feed, digit, if_false, Bool.false_eq_true] at read
    obtain ⟨s, t, rfl, same, inside⟩ := later .plain read
    exact ⟨b :: s, escapeByte b :: t, rfl, by simp [same], .escaped feed (Bool.not_eq_true _ ▸ digit) inside⟩

theorem octalStops (b : UInt8) {ds : Bytes} (digits : ∀ d ∈ ds, isOctal d = true) (any : ds ≠ [])
    (few : ds.length ≤ 3) (other : isOctal b = false) (later : ClosesAll rest content after)
    (read : led (plainStep (UInt8.ofNat (octal ds) :: done) b) line rest = (some content, after)) :
    Closes (92 :: ds) done content (b :: rest) after := by
  obtain ⟨s, t, split, same, inside⟩ := plainCloses b later read
  have ends : ∀ x ∈ s.head?, isOctal x = false := by
    intro x head
    cases s with
    | nil => cases head
    | cons y s =>
      cases Option.some.inj head
      cases split
      exact other
  exact ⟨s, UInt8.ofNat (octal ds) :: t, split, by simp [same], .octal digits any few (.inr ends) inside⟩

theorem octalCloses (b : UInt8) {ds : Bytes} {more : Bool} (digits : ∀ d ∈ ds, isOctal d = true)
    (few : ds.length = if more then 1 else 2) (later : ClosesAll rest content after)
    (read : led (stringStep (.octal (octal ds) more) done b) line rest = (some content, after)) :
    Closes (92 :: ds) done content (b :: rest) after := by
  cases digit : isOctal b with
  | false =>
    have any : ds ≠ [] := by
      rintro rfl
      cases more <;> cases few
    have short : ds.length ≤ 3 := by
      rw [few]
      split <;> decide
    have stops : stringStep (.octal (octal ds) more) done b = plainStep (UInt8.ofNat (octal ds) :: done) b := by
      simp [stringStep, digit]
    exact octalStops b digits any short digit later (stops ▸ read)
  | true =>
    have longer : ∀ d ∈ ds ++ [b], isOctal d = true := by
      intro d member
      rcases List.mem_append.mp member with old | new
      · exact digits d old
      · exact List.mem_singleton.mp new ▸ digit
    unfold led stringStep at read
    simp only [digit, if_true, ← octalAppend] at read
    cases more with
    | true =>
      have begun : Begun (.octal (octal (ds ++ [b])) false) (92 :: (ds ++ [b])) := .octal longer (by simpa using few)
      obtain ⟨s, t, rfl, same, inside⟩ := later begun read
      exact ⟨b :: s, t, rfl, same, by simpa using inside⟩
    | false =>
      obtain ⟨s, t, rfl, same, inside⟩ := later .plain read
      have three : (ds ++ [b]).length = 3 := by simpa using few
      have all := Quoted.octal longer (by simp) (Nat.le_of_eq three) (.inl three) inside
      exact ⟨b :: s, UInt8.ofNat (octal (ds ++ [b])) :: t, rfl, by simp [same], by simpa using all⟩

theorem stringBodyFound (bytes : Bytes) : ClosesAll bytes content after := by
  induction bytes with
  | nil =>
    intro inside done line p begun read
    cases read
  | cons b rest ih =>
    intro inside done line p begun read
    unfold stringBody at read
    cases begun with
    | plain => exact plainCloses b ih read
    | escape => exact escapeCloses b ih read
    | octal digits few => exact octalCloses b digits few ih read

end Strings

/-! Comments. -/

theorem commentBodyFound {structured : Bool} {c after : Cursor} {e : Element}
    (read : commentBody structured c = (e, after, false)) : ∃ text, newline ∉ text ∧
      c.rest = text ++ newline :: after.rest ∧
      e = .token (.comment (withoutReturn (Text.Utf8.decode text)) structured) := by
  obtain ⟨visible, whole⟩ := textWhileFound (· != newline) c
  unfold commentBody Cursor.textByte? at read
  dsimp only at read
  cases ends : (c.textWhile (· != newline)).2.rest with
  | nil =>
    rw [ends] at read
    cases read
  | cons b rest =>
    have feed : b = newline := by
      have stop := List.head?_dropWhile_not (· != newline) c.rest
      rw [show c.rest.dropWhile (· != newline) = b :: rest from ends] at stop
      simpa using stop
    rw [ends] at read whole
    cases read
    refine ⟨_, fun member => ?_, by rw [← whole, feed], rfl⟩
    simpa using visible newline member

theorem commentFound {c after : Cursor} {e : Element} (read : comment c = (e, after, false)) :
    ∃ tail, c.rest = tail ++ after.rest ∧ Spelled (35 :: tail) e := by
  rw [commentMarked] at read
  unfold commentMarks at read
  split at read
  · rename_i rest mark
    obtain ⟨text, line, whole, rfl⟩ := commentBodyFound read
    dsimp only at whole
    exact ⟨35 :: (text ++ [newline]), by rw [mark, whole]; simp, .structured line⟩
  · rename_i other
    obtain ⟨text, line, whole, rfl⟩ := commentBodyFound read
    refine ⟨text ++ [newline], by rw [whole]; simp, .comment line fun mark => ?_⟩
    cases text with
    | nil => cases mark
    | cons b text =>
      cases Option.some.inj mark
      exact other _ whole

/-! Payloads. -/

theorem payloadFound {n : Nat} {c after : Cursor} {bytes : Bytes} (found : c.payload n = (some bytes, after)) :
    bytes.length = n ∧ c.rest = bytes ++ after.rest := by
  refine ⟨payloadSize found, ?_⟩
  unfold Cursor.payload at found
  split at found
  · rename_i taken rest whole
    obtain ⟨new, same, split, -⟩ := Cursor.takeExactlySound n [] c.rest taken rest whole
    cases found
    rw [split, same]
    rfl
  · cases found

def PackedOr (op : UInt8) (c : Cursor) (x : Element × Cursor × Bool) : Prop :=
  x.2.2 = false → (isReserved op = true ∧ x = (.reserved, c, false)) ∨
    ∃ bytes, c.rest = bytes ++ x.2.1.rest ∧ Packed op bytes x.1

section Payloads
variable {op : UInt8} {c : Cursor} {make : Bytes → Element}

theorem sizedFound {n : Nat} (packs : ∀ {bytes}, bytes.length = n → Packed op bytes (make bytes)) :
    PackedOr op c (sized n c make) := by
  unfold sized
  split
  · rename_i found
    obtain ⟨size, whole⟩ := payloadFound found
    exact fun _ => .inr ⟨_, whole, packs size⟩
  · exact fun cut => nomatch cut

theorem countedFound {width unit : Nat} (packs : ∀ {count bytes}, count.length = width →
      bytes.length = bigEndian count * unit → Packed op (count ++ bytes) (make bytes)) :
    PackedOr op c (counted width unit c make) := by
  unfold counted
  split
  · rename_i found
    obtain ⟨digits, split⟩ := payloadFound found
    unfold sized
    split
    · rename_i found
      obtain ⟨size, whole⟩ := payloadFound found
      exact fun _ => .inr ⟨_, by rw [split, whole, List.append_assoc], packs digits size⟩
    · exact fun cut => nomatch cut
  · exact fun cut => nomatch cut

theorem binaryFound (high : 0x80 ≤ op) (c : Cursor) : PackedOr op c (binary op c) := by
  have from_ {low high : UInt8} (least : ¬ op < low) (most : op < high) :
      ∃ k, op.toNat = low.toNat + k ∧ op.toNat - low.toNat = k ∧ k < high.toNat - low.toNat := by
    obtain ⟨below, above⟩ := Guarded.between least most
    exact ⟨op.toNat - low.toNat, by omega, rfl, by omega⟩
  unfold binary
  dsimp only
  refine iteInduction (fun below => ?_) fun above => ?_
  · obtain ⟨k, code, rest, few⟩ := from_ (UInt8.not_lt.mpr high) below
    rw [show op.toNat - 0x80 = k from rest]
    exact sizedFound (.fixed code few)
  refine iteInduction (fun below => ?_) fun above => ?_
  · obtain ⟨k, code, rest, few⟩ := from_ above below
    rw [show op.toNat - 0x90 = k from rest]
    exact sizedFound (.short code few)
  refine iteInduction (fun below => ?_) fun above => ?_
  · obtain ⟨k, code, rest, few⟩ := from_ above below
    rw [show op.toNat - 0xa0 = k from rest]
    exact countedFound fun digits size => .long code few digits (by rwa [Nat.mul_one] at size)
  refine iteInduction (fun code => sizedFound (.single (beq_iff_eq.mp code))) fun single => ?_
  refine iteInduction (fun code => sizedFound (.double (beq_iff_eq.mp code))) fun double => ?_
  refine iteInduction (fun code => sizedFound (.recallRequest (beq_iff_eq.mp code))) fun named => ?_
  refine iteInduction (fun below _ => .inl ⟨?_, rfl⟩) fun above => ?_
  · simp only [beq_iff_eq, ← UInt8.toNat_inj, UInt8.reduceToNat] at single double named
    simp only [isReserved, Bool.or_eq_true, Bool.and_eq_true, decide_eq_true_eq, UInt8.le_iff_toNat_le,
      UInt8.lt_iff_toNat_lt, UInt8.reduceToNat] at above below ⊢
    omega
  refine iteInduction (fun below => ?_) fun above => ?_
  · obtain ⟨k, code, rest, few⟩ := from_ above below
    rw [show op.toNat - 0xc8 = k from rest]
    exact countedFound (.floats code few)
  refine iteInduction (fun code => sizedFound (.defineRequest (beq_iff_eq.mp code))) fun define => ?_
  refine iteInduction (fun code => sizedFound fun size => .defineString (.inl ⟨beq_iff_eq.mp code, size⟩))
    fun short => ?_
  refine iteInduction (fun code => sizedFound fun size => .defineString (.inr ⟨beq_iff_eq.mp code, size⟩))
    fun long => ?_
  refine iteInduction (fun code => sizedFound fun size => .recallString (.inl ⟨beq_iff_eq.mp code, size⟩))
    fun shortRecall => ?_
  refine iteInduction (fun code => sizedFound fun size => .recallString (.inr ⟨beq_iff_eq.mp code, size⟩))
    fun longRecall _ => .inl ⟨?_, rfl⟩
  simp only [beq_iff_eq, ← UInt8.toNat_inj, UInt8.reduceToNat] at define short long shortRecall longRecall
  simp only [isReserved, Bool.or_eq_true, Bool.and_eq_true, decide_eq_true_eq, UInt8.le_iff_toNat_le,
    UInt8.lt_iff_toNat_lt, UInt8.reduceToNat] at above ⊢
  omega

end Payloads

theorem elementFound {b : UInt8} (visible : isBlank b = false) {c after : Cursor} {e : Element}
    (read : elementAt b c = (e, after, false)) :
    (isReserved b = true ∧ e = .reserved ∧ after = c) ∨
      ∃ tail, c.rest = tail ++ after.rest ∧ Spelled (b :: tail) e := by
  by_cases high : 0x80 ≤ b
  · unfold elementAt at read
    rw [if_pos high] at read
    have found := binaryFound high c
    rw [read] at found
    rcases found rfl with ⟨reserved, same⟩ | ⟨bytes, whole, payload⟩
    · cases same
      exact .inl ⟨reserved, rfl, rfl⟩
    · exact .inr ⟨bytes, whole, .packed payload⟩
  refine .inr ?_
  by_cases starts : startsNumber b = true
  · obtain ⟨tail, text, numeral, whole⟩ := numberFound starts c
    rw [elementNumber starts, text] at read
    obtain ⟨same, place, -⟩ := Prod.mk.inj read |>.imp id Prod.mk.inj
    exact ⟨tail, place ▸ whole.symm, same ▸ .number numeral⟩
  by_cases first : startsName b = true
  · obtain ⟨more, whole⟩ := textWhileFound continuesName c
    rw [elementName first] at read
    obtain ⟨same, place, -⟩ := Prod.mk.inj read |>.imp id Prod.mk.inj
    exact ⟨_, place ▸ whole.symm, same ▸ .name first more⟩
  unfold elementAt at read
  rw [if_neg high] at read
  by_cases opening : b = 91
  · subst opening
    cases read
    exact ⟨[], rfl, .opening⟩
  by_cases closing : b = 93
  · subst closing
    cases read
    exact ⟨[], rfl, .closing⟩
  by_cases mark : b = 35
  · subst mark
    exact commentFound read
  by_cases quote : b = 34
  · subst quote
    rw [if_neg (by decide), if_neg (by decide), if_neg (by decide), if_pos (by decide)] at read
    split at read
    · rename_i found
      cases read
      obtain ⟨s, t, whole, same, inside⟩ := stringBodyFound c.rest .plain found
      subst same
      exact ⟨s ++ [34], by rw [whole]; simp, .quoted inside⟩
    · cases read
  simp only [beq_iff_eq, opening, closing, mark, quote, starts, first, if_false, Bool.false_eq_true] at read
  cases read
  exact ⟨[], rfl, .stray (UInt8.not_le.mp high) visible (by simp [opening, closing, mark, quote])
    (Bool.not_eq_true _ ▸ starts) (Bool.not_eq_true _ ▸ first)⟩

theorem scanFound {c : Cursor} {s : Scan} (found : scan? c = some s) (whole : s.cut = false) :
    ∃ gap word, (∀ b ∈ gap, isSpacing b = true) ∧ c.rest = gap ++ word ++ s.after.rest ∧
      (Spelled word s.element ∨ word = [] ∧ s.element = .reserved) := by
  obtain ⟨blanks, all⟩ := textWhileFound isBlank c
  have spacing : ∀ b ∈ (c.textWhile isBlank).1, isSpacing b = true := fun b member => by
    simp [isSpacing, blanks b member]
  unfold scan? at found
  dsimp only at found
  cases rest : (c.textWhile isBlank).2.rest with
  | nil =>
    rw [rest] at found
    cases found
  | cons b rest' =>
    have visible : isBlank b = false := by
      have stop := List.head?_dropWhile_not isBlank c.rest
      rw [show c.rest.dropWhile isBlank = b :: rest' from rest] at stop
      simpa using stop
    rw [rest] at found all
    cases read : elementAt b ⟨rest', (c.textWhile isBlank).2.line⟩ with
    | mk e place =>
      obtain ⟨after, cut⟩ := place
      simp only [read] at found
      cases found
      dsimp only at whole
      subst whole
      rcases elementFound visible read with ⟨reserved, none, same⟩ | ⟨tail, behind, word⟩
      · refine ⟨(c.textWhile isBlank).1 ++ [b], [], ?_, ?_, .inr ⟨rfl, none⟩⟩
        · intro x member
          rcases List.mem_append.mp member with blank | code
          · exact spacing x blank
          · rw [List.mem_singleton.mp code]
            simp [isSpacing, reserved]
        · rw [← all, same]
          simp
      · refine ⟨(c.textWhile isBlank).1, b :: tail, spacing, ?_, .inl word⟩
        dsimp only at behind
        rw [← all, behind]
        simp

end SceneStream.Stream
