import SceneStream.Proofs.Text.Utf8

/-! Decoding any bytes. Whatever is replaced, a character of one byte comes from that byte alone, and it
comes first only if the byte does. -/
namespace SceneStream.Text.Utf8

def OneByte (c : Char) : Prop := 0 < c.toNat ∧ c.toNat < 0x80

theorem charValue (n : Nat) : (Char.ofNat n).toNat = if n.isValidChar then n else 0 := by
  by_cases valid : n.isValidChar
  · rw [if_pos valid, Char.ofNat, dif_pos valid]
    rfl
  · rw [if_neg valid, Char.ofNat, dif_neg valid]
    rfl

theorem charLong {n : Nat} (high : 0x80 ≤ n) : ¬ OneByte (Char.ofNat n) := by
  unfold OneByte
  rw [charValue]
  split <;> omega

theorem replacementLong : ¬ OneByte replacement := by
  unfold OneByte
  decide

def Ample (p : Begun) : Prop :=
  (p.owed ≤ 1 → 2 ≤ p.bits) ∧ (1 ≤ p.bits ∨ 0x82 ≤ p.low.toNat ∧ p.high.toNat ≤ 0xbf)

theorem leadChar {b : UInt8} {c : Char} (whole : lead b = .char c) : byte c = b := by
  unfold lead at whole
  dsimp only at whole
  split at whole
  · rename_i low
    cases Lead.char.inj whole
    have value : b.toNat < 0x80 := UInt8.lt_iff_toNat_lt.mp low
    rw [byte, charValue, if_pos (.inl (by omega)), UInt8.ofNat_toNat]
  · repeat' split at whole
    all_goals contradiction

theorem leadAmple {b : UInt8} {p : Begun} (opened : lead b = .begun p) : Ample p := by
  have bound := b.toNat_lt
  unfold lead at opened
  simp only [UInt8.lt_iff_toNat_lt, beq_iff_eq, ← UInt8.toNat_inj, UInt8.reduceToNat] at opened
  repeat' split at opened
  all_goals first | contradiction | skip
  all_goals
    cases Lead.begun.inj opened
    refine ⟨fun last => ?_, ?_⟩ <;> simp only [UInt8.reduceToNat] at * <;> omega

/-- One byte gives at most its own character and a replacement for what was begun before it. -/
structure Adds (b : UInt8) (s t : State) (new : List Char) : Prop where
  chars : t.chars = new ++ s.chars
  own : ∀ c ∈ new, OneByte c → byte c = b
  ample : ∀ p ∈ t.begun, Ample p
  going : new = [] → t.begun.isSome
  first : s.begun.isSome → ∀ c ∈ new.getLast?, ¬ OneByte c

theorem startAdds (cs : List Char) (b : UInt8) :
    ∃ new, (start cs b).chars = new ++ cs ∧ (∀ c ∈ new, OneByte c → byte c = b) ∧
      (∀ p ∈ (start cs b).begun, Ample p) ∧ (new = [] → (start cs b).begun.isSome) := by
  unfold start
  split
  · rename_i c whole
    refine ⟨[c], rfl, ?_, by simp, by simp⟩
    intro d member _
    rw [List.mem_singleton.mp member, leadChar whole]
  · rename_i p opened
    exact ⟨[], rfl, by simp, by simpa using leadAmple opened, fun _ => rfl⟩
  · refine ⟨[replacement], rfl, ?_, by simp, by simp⟩
    intro d member short
    exact absurd (List.mem_singleton.mp member ▸ short) replacementLong

theorem stepAdds {s : State} (ample : ∀ p ∈ s.begun, Ample p) (b : UInt8) :
    ∃ new, Adds b s (step s b) new := by
  unfold step
  cases begun : s.begun with
  | none =>
    obtain ⟨new, chars, own, ample, going⟩ := startAdds s.chars b
    exact ⟨new, chars, own, ample, going, by simp [begun]⟩
  | some p =>
    have room := ample p begun
    dsimp only
    split
    · rename_i inside
      simp only [Bool.and_eq_true, decide_eq_true_eq, UInt8.le_iff_toNat_le] at inside
      split
      · rename_i last
        have two := room.1 last
        have long : ¬ OneByte (Char.ofNat (p.bits * 64 + b.toNat % 64)) := charLong (by omega)
        refine ⟨[_], rfl, ?_, by simp, by simp, ?_⟩
        · intro d member short
          exact absurd (List.mem_singleton.mp member ▸ short) long
        · intro _ d last
          exact Option.some.inj last ▸ long
      · rename_i more
        have wide : 2 ≤ p.bits * 64 + b.toNat % 64 := by
          have := room.2
          omega
        refine ⟨[], rfl, by simp, ?_, fun _ => rfl, by simp⟩
        intro q same
        cases Option.some.inj same
        exact ⟨fun _ => wide, .inl (Nat.le_of_succ_le wide)⟩
    · obtain ⟨new, chars, own, ample, going⟩ := startAdds (replacement :: s.chars) b
      refine ⟨new ++ [replacement], by simp [chars], ?_, ample, by simp, ?_⟩
      · intro c member short
        rcases List.mem_append.mp member with inside | replaced
        · exact own c inside short
        · exact absurd (List.mem_singleton.mp replaced ▸ short) replacementLong
      · intro _ c last
        rw [List.getLast?_concat] at last
        exact Option.some.inj last ▸ replacementLong

theorem foldOwn {s : State} (ample : ∀ p ∈ s.begun, Ample p) (bytes : List UInt8) {c : Char}
    (short : OneByte c) (member : c ∈ (bytes.foldl step s).chars) :
    c ∈ s.chars ∨ byte c ∈ bytes := by
  induction bytes generalizing s with
  | nil => exact .inl member
  | cons b bytes ih =>
    obtain ⟨new, adds⟩ := stepAdds ample b
    rcases ih adds.ample member with before | later
    · rw [adds.chars] at before
      rcases List.mem_append.mp before with own | old
      · exact .inr (List.mem_cons.mpr (.inl (adds.own c own short)))
      · exact .inl old
    · exact .inr (List.mem_cons_of_mem b later)

theorem decodeOwn {bytes : List UInt8} {c : Char} (short : OneByte c)
    (member : c ∈ (decode bytes).toList) : byte c ∈ bytes := by
  have inside : c ∈ (bytes.foldl step ⟨[], none⟩).chars := by
    unfold decode finish at member
    split at member
    · simp only [String.toList_ofList, List.mem_reverse, List.mem_cons] at member
      rcases member with rfl | inside
      · exact absurd short replacementLong
      · exact inside
    · simpa using member
  rcases foldOwn (by simp) bytes short inside with before | own
  · simp at before
  · exact own

def FirstOther (c : Char) (s : State) : Prop :=
  (s.chars = [] → s.begun.isSome) ∧ s.chars.getLast? ≠ some c

theorem foldFirst {s : State} (ample : ∀ p ∈ s.begun, Ample p) (bytes : List UInt8) {c : Char}
    (short : OneByte c) (other : FirstOther c s) : FirstOther c (bytes.foldl step s) := by
  induction bytes generalizing s with
  | nil => exact other
  | cons b bytes ih =>
    obtain ⟨new, adds⟩ := stepAdds ample b
    refine ih adds.ample ?_
    unfold FirstOther
    rw [adds.chars]
    cases chars : s.chars with
    | nil =>
      rw [List.append_nil]
      refine ⟨adds.going, fun last => ?_⟩
      exact adds.first (other.1 chars) c last short
    | cons d ds =>
      refine ⟨by simp, ?_⟩
      have old := other.2
      rw [chars] at old
      simpa [List.getLast?_append] using old

theorem finishFirst {c : Char} (short : OneByte c) {s : State} (other : FirstOther c s) :
    (finish s).toList.head? ≠ some c := by
  obtain ⟨going, last⟩ := other
  unfold finish
  rw [String.toList_ofList, List.head?_reverse]
  cases chars : s.chars with
  | nil =>
    rw [if_pos (going chars)]
    intro same
    have first : replacement = c := by simpa using same
    exact replacementLong (first ▸ short)
  | cons d ds =>
    rw [chars] at last
    split
    · simpa using last
    · exact last

theorem decodeFirst {bytes : List UInt8} {c : Char} (short : OneByte c)
    (head : (decode bytes).toList.head? = some c) : bytes.head? = some (byte c) := by
  cases bytes with
  | nil => simp [decode, finish] at head
  | cons b bytes =>
    obtain ⟨new, adds⟩ := stepAdds (s := ⟨[], none⟩) (by simp) b
    refine Classical.byContradiction fun different => ?_
    have other : FirstOther c (step ⟨[], none⟩ b) := by
      have chars : (step ⟨[], none⟩ b).chars = new := by rw [adds.chars, List.append_nil]
      refine ⟨fun empty => adds.going (chars.symm.trans empty), fun last => different ?_⟩
      have own := adds.own c (List.mem_of_getLast? (chars ▸ last)) short
      rw [own]
      rfl
    exact finishFirst short (foldFirst adds.ample bytes short other) head

end SceneStream.Text.Utf8
