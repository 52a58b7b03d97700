import SceneStream.Proofs.Stream.Guarded
import SceneStream.Proofs.Stream.Item

/-! A stream pulled one by one. Each token is paid for with bytes of its own, and each item with a token of its own
or with the request that ends with the stream; so both come to an end. -/
namespace SceneStream.Stream

/-- Asked again and again, it gives these, and then nothing. -/
inductive Pulls {σ α : Type} (next? : σ → Option (α × σ)) : σ → List α → Prop where
  | ended {s : σ} (nothing : next? s = none) : Pulls next? s []
  | more {s t : σ} {x : α} {rest : List α} (found : next? s = some (x, t)) (later : Pulls next? t rest) :
      Pulls next? s (x :: rest)

theorem pullsSame {σ α : Type} {next? : σ → Option (α × σ)} {s t : σ} {l : List α}
    (same : next? s = next? t) (pulls : Pulls next? t l) : Pulls next? s l := by
  cases pulls with
  | ended nothing => exact .ended (same.trans nothing)
  | more found later => exact .more (same.trans found) later

theorem pullsLength {σ α : Type} {next? : σ → Option (α × σ)} {owed : σ → Nat}
    (falls : ∀ {s t : σ} {x : α}, next? s = some (x, t) → owed t < owed s) {s : σ} {l : List α}
    (pulls : Pulls next? s l) : l.length ≤ owed s := by
  induction pulls with
  | ended => exact Nat.zero_le _
  | more found _ ih => exact Nat.le_trans (Nat.succ_le_succ ih) (falls found)

/-! Tokens. -/

/-- Between two tokens no definition waits. -/
structure Lexer where
  known : List (Slot × String)
  place : Cursor

namespace Lexer

def start (bytes : Bytes) : Lexer := ⟨[], .start bytes⟩
def unread (l : Lexer) : Nat := l.place.rest.length

/-- Up to the next result; a definition at the end of the stream is told of, and then there is nothing. -/
def seek (d : Definitions) (c : Cursor) : Option (Result × Lexer) :=
  match found : scan? c with
  | none => (d.finish c.line).head?.map fun x => (x.result, ⟨d.known, ⟨[], c.line + newlines c.rest⟩⟩)
  | some s =>
    have := scanShorter found
    match d.step s with
    | (after, none) => seek after s.after
    | (after, some result) => some (result, ⟨after.known, s.after⟩)
  termination_by c.rest.length

def next? (l : Lexer) : Option (Result × Lexer) := seek ⟨l.known, []⟩ l.place

end Lexer

theorem stepSettled {d after : Definitions} {s : Scan} {result : Result}
    (given : d.step s = (after, some result)) : after.waiting = [] := by
  have accepted : ∀ t, d.accept t s.line = (after, some result) → after.waiting = [] := by
    intro t h
    unfold Definitions.accept at h
    split at h
    · cases h
      assumption
    · split at h
      · cases h
      · cases h
        rfl
  unfold Definitions.step at given
  split at given
  · exact accepted _ given
  · cases given
  · split at given
    · exact accepted _ given
    · cases given
      rfl
  · cases given
  · cases given
    rfl

namespace Lexer

theorem seekEnd {d : Definitions} {c : Cursor} (ended : scan? c = none) : seek d c =
    (d.finish c.line).head?.map fun x => (x.result, ⟨d.known, ⟨[], c.line + newlines c.rest⟩⟩) := by
  rw [seek]
  split
  · rfl
  · rename_i found
    rw [ended] at found
    cases found

theorem seekStep {d : Definitions} {c : Cursor} {s : Scan} (some : scan? c = Option.some s) : seek d c =
    match d.step s with
    | (after, none) => seek after s.after
    | (after, Option.some result) => Option.some (result, ⟨after.known, s.after⟩) := by
  rw [seek]
  split
  · rename_i found
    rw [some] at found
    cases found
  · rename_i found
    cases some.symm.trans found
    rfl

theorem seekShorter {d : Definitions} {c : Cursor} {result : Result} {l : Lexer}
    (found : seek d c = some (result, l)) :
    l.unread ≤ c.rest.length ∧ (d.waiting = [] → l.unread < c.rest.length) := by
  cases next : scan? c with
  | none =>
    rw [seekEnd next] at found
    obtain ⟨x, head, same⟩ := Option.map_eq_some_iff.mp found
    cases same
    refine ⟨Nat.zero_le _, fun free => ?_⟩
    rw [Definitions.finish, free] at head
    cases head
  | some s =>
    have shorter := scanShorter next
    rw [seekStep next] at found
    cases step : d.step s with
    | mk after given =>
      rw [step] at found
      cases given with
      | none =>
        have later := (seekShorter found).1
        exact ⟨by omega, fun _ => by omega⟩
      | some x =>
        cases found
        exact ⟨Nat.le_of_lt shorter, fun _ => shorter⟩
  termination_by c.rest.length

theorem seekFrom (last : Nat) (d : Definitions) (c : Cursor) :
    (lexedFrom last d c).map Lexed.result = match seek d c with
      | none => []
      | some (result, l) => result :: (lexedFrom last ⟨l.known, []⟩ l.place).map Lexed.result := by
  cases next : scan? c with
  | none =>
    have nothing (line : Nat) : scan? ⟨[], line⟩ = none := rfl
    rw [seekEnd next, lexedFromEnd next]
    unfold Definitions.finish
    cases d.waiting with
    | nil => rfl
    | cons x outer =>
      dsimp only [List.map_cons, List.head?_cons, Option.map_some]
      rw [lexedFromEnd (nothing _)]
      rfl
  | some s =>
    have shorter := scanShorter next
    rw [seekStep next]
    cases step : d.step s with
    | mk after given =>
      cases given with
      | none =>
        rw [lexedFromSilent next step]
        exact seekFrom last after s.after
      | some x =>
        obtain ⟨known, waiting⟩ := after
        cases stepSettled step
        rw [lexedFromNext next step]
        rfl
  termination_by c.rest.length

theorem nextShorter {l m : Lexer} {result : Result} (found : l.next? = some (result, m)) :
    m.unread < l.unread :=
  (seekShorter found).2 rfl

theorem lexerPulls (last : Nat) (l : Lexer) :
    Pulls next? l ((lexedFrom last ⟨l.known, []⟩ l.place).map Lexed.result) := by
  have here := seekFrom last ⟨l.known, []⟩ l.place
  cases found : l.next? with
  | none =>
    rw [show seek ⟨l.known, []⟩ l.place = none from found] at here
    rw [here]
    exact .ended found
  | some next =>
    obtain ⟨result, m⟩ := next
    have shorter := nextShorter found
    rw [show seek ⟨l.known, []⟩ l.place = some (result, m) from found] at here
    rw [here]
    exact .more found (lexerPulls last m)
  termination_by l.unread

end Lexer

/-! Items. -/

structure Decoder where
  lexer : Lexer
  phase : Phase
  pending : List Item

namespace Decoder

def start (bytes : Bytes) : Decoder := ⟨.start bytes, .idle, []⟩

def next? (d : Decoder) : Option (Item × Decoder) :=
  match d.pending with
  | x :: rest => some (x, { d with pending := rest })
  | [] => match found : d.lexer.next? with
    | some (result, lexer) =>
      have := Lexer.nextShorter found
      next? ⟨lexer, (d.phase.step result).1, (d.phase.step result).2⟩
    | none => match d.phase.finish with
      | [] => none
      | x :: rest => some (x, ⟨d.lexer, .ended, rest⟩)
  termination_by d.lexer.unread

/-- The items that can still come. -/
def owed (d : Decoder) : Nat := d.pending.length + d.phase.finish.length + d.lexer.unread

end Decoder

theorem finishLength (d : Draft) : d.finish.length =
    max 1 (d.problems.length + d.array.toList.length) + d.comments.length := by
  have all : d.allProblems.length = d.problems.length + d.array.toList.length := by
    unfold Draft.allProblems
    cases d.array <;> simp
  unfold Draft.finish
  rw [← all]
  cases d.allProblems with
  | nil => simp [Nat.add_comm]
  | cons p problems => simp [Nat.add_right_comm]

theorem failOwes (d : Draft) (p : Problem) : (d.fail p).finish.length ≤ d.finish.length + 1 := by
  simp only [finishLength, Draft.fail, List.length_cons]
  omega

theorem valueOwes (d : Draft) (v : Values) (isArray : Bool) :
    (d.value v isArray).finish.length ≤ d.finish.length + 1 := by
  simp only [finishLength]
  unfold Draft.value
  cases d.array with
  | none => simp
  | some c =>
    dsimp only
    cases c.push v with
    | mk c problem =>
      cases problem with
      | none => simp
      | some p =>
        simp only [List.length_cons, Option.toList]
        omega

theorem addOwes (d : Draft) (x : Lexeme) : (d.add x).finish.length ≤ d.finish.length + 1 := by
  unfold Draft.add
  cases x.token with
  | name => exact Nat.le_succ _
  | integer | float | string | floats => exact valueOwes ..
  | opening =>
    dsimp only
    unfold Draft.opening
    cases closed : d.array with
    | none =>
      simp only [finishLength, closed, Option.toList, List.length_nil, List.length_singleton]
      omega
    | some c => exact failOwes ..
  | closing =>
    dsimp only
    unfold Draft.closing
    cases opened : d.array with
    | none => exact failOwes ..
    | some c =>
      simp only [finishLength, opened, Option.toList, List.length_nil, List.length_singleton]
      omega
  | comment =>
    simp only [finishLength, List.length_cons]
    omega

theorem enterOwes (name : String) (line : Nat) : (Phase.enter name line).finish.length = 1 := by
  unfold Phase.enter
  cases RequestKind.ofName? name <;> rfl

theorem stepOwes (phase : Phase) (x : Result) :
    (phase.step x).2.length + (phase.step x).1.finish.length ≤ phase.finish.length + 1 := by
  -- A token adds one item at most to those that are complete and those that the end would give.
  cases phase with
  | ended => exact Nat.zero_le _
  | idle =>
    cases x with
    | error p =>
      simp only [Phase.step]
      split <;> exact Nat.le_refl _
    | ok l =>
      obtain ⟨token, line⟩ := l
      cases token with
      | name s => exact Nat.le_of_eq ((Nat.zero_add _).trans (enterOwes s line))
      | _ => exact Nat.le_refl _
  | skipping items =>
    cases x with
    | error p =>
      simp only [Phase.step]
      split <;> simp [Phase.finish]
    | ok l =>
      obtain ⟨token, line⟩ := l
      cases token with
      | name s =>
        simp only [Phase.step]
        split
        · exact Nat.le_refl _
        · simp [Phase.finish]
      | _ => simp [Phase.step, Phase.finish]
  | drafting d =>
    cases x with
    | error p =>
      simp only [Phase.step]
      split
      · exact failOwes d p
      · exact Nat.le_trans (Nat.le_of_eq (Nat.zero_add _)) (failOwes d p)
    | ok l =>
      obtain ⟨token, line⟩ := l
      cases token with
      | name s => exact Nat.add_le_add_left (Nat.le_of_eq (enterOwes s line)) _
      | _ => exact Nat.le_trans (Nat.le_of_eq (Nat.zero_add _)) (addOwes d _)

namespace Decoder

section Next
variable {lexer m : Lexer} {phase : Phase} {result : Result}

theorem nextItem (x : Item) (rest : List Item) :
    next? ⟨lexer, phase, x :: rest⟩ = some (x, ⟨lexer, phase, rest⟩) := by
  rw [next?]

theorem nextToken (pulled : lexer.next? = some (result, m)) :
    next? ⟨lexer, phase, []⟩ = next? ⟨m, (phase.step result).1, (phase.step result).2⟩ := by
  rw [next?]
  dsimp only
  split
  · rename_i found
    cases pulled.symm.trans found
    rfl
  · rename_i found
    cases pulled.symm.trans found

theorem nextEnd (ended : lexer.next? = none) :
    next? ⟨lexer, phase, []⟩ = match phase.finish with
      | [] => none
      | x :: rest => some (x, ⟨lexer, .ended, rest⟩) := by
  rw [next?]
  dsimp only
  split
  · rename_i found
    cases ended.symm.trans found
  · rfl

end Next

theorem nextOwed {lexer : Lexer} {phase : Phase} {pending : List Item} {d : Decoder} {x : Item}
    (found : next? ⟨lexer, phase, pending⟩ = some (x, d)) : d.owed < owed ⟨lexer, phase, pending⟩ := by
  cases pending with
  | cons y rest =>
    cases (nextItem y rest).symm.trans found
    simp only [owed, List.length_cons]
    omega
  | nil =>
    cases pulled : lexer.next? with
    | none =>
      rw [nextEnd pulled] at found
      cases ends : phase.finish with
      | nil =>
        rw [ends] at found
        cases found
      | cons y rest =>
        rw [ends] at found
        cases found
        have nothing : Phase.ended.finish = [] := rfl
        simp only [owed, ends, nothing, List.length_cons, List.length_nil]
        omega
    | some token =>
      obtain ⟨result, m⟩ := token
      have shorter := Lexer.nextShorter pulled
      have step := stepOwes phase result
      have later := nextOwed ((nextToken pulled).symm.trans found)
      simp only [owed, List.length_nil] at later ⊢
      omega
  termination_by lexer.unread

theorem endPulls {lexer : Lexer} (ended : lexer.next? = none) (items : List Item) :
    Pulls next? ⟨lexer, .ended, items⟩ items := by
  induction items with
  | nil => exact .ended (nextEnd ended)
  | cons x rest ih => exact .more (nextItem x rest) ih

theorem decoderPulls {lexer : Lexer} {results : List Result} (pulls : Pulls Lexer.next? lexer results)
    (phase : Phase) (pending : List Item) :
    Pulls next? ⟨lexer, phase, pending⟩ (pending ++ itemsRun phase results) := by
  induction pulls generalizing phase pending with
  | @ended lexer nothing =>
    induction pending with
    | cons x rest ih => exact .more (nextItem x rest) ih
    | nil =>
      have next : next? ⟨lexer, phase, []⟩ = _ := nextEnd nothing
      rw [itemsRun, List.nil_append]
      cases ends : phase.finish with
      | nil =>
        rw [ends] at next
        exact .ended next
      | cons x rest =>
        rw [ends] at next
        exact .more next (endPulls nothing rest)
  | @more lexer m result rest found _ later =>
    induction pending with
    | cons x items ih => exact .more (nextItem x items) ih
    | nil => exact pullsSame (nextToken found) (later _ _)

end Decoder

/-- Whatever the bytes: a token or a problem takes some of them, an opcode needs no index or shift that is out of
range, the tokens and the items come to an end, and there are no more items than bytes. -/
theorem decodingEnds (bytes : Bytes) :
    (∀ l m result, Lexer.next? l = some (result, m) → m.unread < l.unread) ∧
    (∀ op c, 0x80 ≤ op → Guarded.binary? op c = some (binary op c)) ∧
    Pulls Lexer.next? (.start bytes) ((lexed bytes).map Lexed.result) ∧
    Pulls Decoder.next? (.start bytes) (decode bytes) ∧
    (decode bytes).length ≤ bytes.length := by
  have tokens : Pulls Lexer.next? (.start bytes) ((lexed bytes).map Lexed.result) :=
    Lexer.lexerPulls (lastLine bytes) (.start bytes)
  have items : Pulls Decoder.next? (.start bytes) (decode bytes) := by
    rw [decodeRun]
    exact Decoder.decoderPulls tokens .idle []
  have start : (Decoder.start bytes).owed = bytes.length := Nat.zero_add _
  have few : (decode bytes).length ≤ (Decoder.start bytes).owed := pullsLength Decoder.nextOwed items
  exact ⟨fun _ _ _ => Lexer.nextShorter, fun _ c high => Guarded.binaryGuarded high c, tokens, items,
    Nat.le_trans few (Nat.le_of_eq start)⟩

end SceneStream.Stream
