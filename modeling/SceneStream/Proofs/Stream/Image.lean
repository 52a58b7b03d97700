import SceneStream.Proofs.Stream.Accounting
import SceneStream.Proofs.Stream.Tokens
import SceneStream.Proofs.Text.Lossy

/-! What decoding can give. A parameter that is no array is one value, an empty array is one of floats,
and a comment ends with its line and has no mark that was not read as one. -/
namespace SceneStream.Stream
open Text.Utf8 (OneByte decodeOwn decodeFirst)

/-! Comments. -/

theorem withoutReturnPrefix (s : String) : (withoutReturn s).toList <+: s.toList := by
  unfold withoutReturn
  split
  · rename_i rest same
    refine ⟨['\r'], ?_⟩
    rw [String.toList_ofList, ← List.reverse_cons, ← same, List.reverse_reverse]
  · exact List.prefix_rfl

theorem headPrefix {α : Type} {a b : List α} {x : α} (before : a <+: b) (head : a.head? = some x) :
    b.head? = some x := by
  obtain ⟨rest, rfl⟩ := before
  cases a with
  | nil => contradiction
  | cons y a => exact head

theorem textWhileAll (p : UInt8 → Bool) (c : Cursor) : ∀ b ∈ (c.textWhile p).1, p b = true :=
  List.all_eq_true.mp List.all_takeWhile

theorem textWhilePrefix (p : UInt8 → Bool) (c : Cursor) : (c.textWhile p).1 <+: c.rest :=
  List.takeWhile_prefix p

theorem commentBodyToken (structured : Bool) (c : Cursor) :
    (commentBody structured c).1 = .token (.comment
      (withoutReturn (Text.Utf8.decode (c.textWhile (· != newline)).1)) structured) := by
  unfold commentBody
  dsimp only
  split <;> rfl

theorem unmarkedHead {c : Cursor} (plain : (commentMarks c).1 = false) :
    (commentMarks c).2.rest.head? ≠ some 35 := by
  unfold commentMarks at plain ⊢
  split
  · rename_i rest hash
    rw [hash] at plain
    contradiction
  · rename_i other
    intro head
    obtain ⟨rest, same⟩ := List.head?_eq_some_iff.mp head
    exact other rest same

theorem commentScanned {c : Cursor} {text : String} {structured : Bool} (line : Nat)
    (found : (comment c).1 = .token (.comment text structured)) :
    CommentWhole ⟨text, structured, line⟩ := by
  rw [commentMarked, commentBodyToken] at found
  obtain ⟨same, marks⟩ := Token.comment.inj (Element.token.inj found)
  have kept : text.toList <+: _ := same ▸ withoutReturnPrefix _
  have newlineShort : OneByte '\n' := ⟨by decide, by decide⟩
  have hashShort : OneByte '#' := ⟨by decide, by decide⟩
  refine ⟨fun member => ?_, fun plain head => ?_⟩
  · have inside := textWhileAll _ _ _ (decodeOwn newlineShort (kept.subset member))
    exact absurd inside (by decide)
  · have first := decodeFirst hashShort (headPrefix kept head)
    exact unmarkedHead (marks.trans plain) (headPrefix (textWhilePrefix _ _) first)

/-! Only the text form gives a comment. -/

theorem sizedWordless {n : Nat} {c : Cursor} {make : Bytes → Element}
    (quiet : ∀ bytes, Wordless (make bytes)) : Wordless (sized n c make).1 := by
  unfold sized
  split
  · exact quiet _
  · exact fun _ _ => Element.noConfusion

theorem countedWordless {width unit : Nat} {c : Cursor} {make : Bytes → Element}
    (quiet : ∀ bytes, Wordless (make bytes)) : Wordless (counted width unit c make).1 := by
  unfold counted
  split
  · exact sizedWordless quiet
  · exact fun _ _ => Element.noConfusion

theorem binaryWordless (op : UInt8) (c : Cursor) : Wordless (binary op c).1 := by
  have shape := binaryShape op c
  generalize binary op c = x at shape ⊢
  cases shape with
  | sized n clean => exact sizedWordless clean.wordless
  | counted width unit clean => exact countedWordless clean.wordless
  | reserved => exact fun _ _ => Element.noConfusion

theorem numberWordless (cs : List Char) : Wordless (number cs) := by
  unfold number
  dsimp only
  split
  · exact tokenWordless fun _ _ => Token.noConfusion
  · exact tokenWordless fun _ _ => Token.noConfusion
  · exact fun _ _ => Element.noConfusion

theorem elementComment {b : UInt8} {c : Cursor} {text : String} {structured : Bool} (line : Nat)
    (found : (elementAt b c).1 = .token (.comment text structured)) :
    CommentWhole ⟨text, structured, line⟩ := by
  have absurdly {e : Element} (quiet : Wordless e) (same : e = .token (.comment text structured)) :
      CommentWhole ⟨text, structured, line⟩ := absurd same (quiet text structured)
  unfold elementAt at found
  split at found
  · exact absurdly (binaryWordless b c) found
  split at found
  · exact absurdly (tokenWordless fun _ _ => Token.noConfusion) found
  split at found
  · exact absurdly (tokenWordless fun _ _ => Token.noConfusion) found
  split at found
  · exact commentScanned line found
  split at found
  · split at found
    · exact absurdly (tokenWordless fun _ _ => Token.noConfusion) found
    · exact absurdly (fun _ _ => Element.noConfusion) found
  split at found
  · exact absurdly (numberWordless _) found
  split at found
  · exact absurdly (tokenWordless fun _ _ => Token.noConfusion) found
  · exact absurdly (fun _ _ => Element.noConfusion) found

theorem scanComment {c : Cursor} {s : Scan} {text : String} {structured : Bool} (line : Nat)
    (found : scan? c = some s) (same : s.element = .token (.comment text structured)) :
    CommentWhole ⟨text, structured, line⟩ := by
  unfold scan? at found
  dsimp only at found
  split at found
  · contradiction
  · cases Option.some.inj found
    exact elementComment line same

theorem stepComment {d after : Definitions} {s : Scan} {c : Comment} {result : Result}
    (given : d.step s = (after, some result)) (same : lexedComment? result = some c) :
    s.element = .token (.comment c.text c.structured) := by
  obtain ⟨line, rfl⟩ : ∃ line, result = .ok ⟨.comment c.text c.structured, line⟩ := by
    unfold lexedComment? at same
    split at same
    · cases Option.some.inj same
      exact ⟨_, rfl⟩
    · contradiction
  have accepted : ∀ t, d.accept t s.line = (after, some (.ok ⟨.comment c.text c.structured, line⟩)) →
      t = .comment c.text c.structured := by
    intro t h
    unfold Definitions.accept at h
    split at h
    · cases h
      rfl
    · split at h <;> cases h
  unfold Definitions.step at given
  split at given
  · rename_i t token
    rw [token, accepted t given]
  · cases given
  · split at given
    · have recalled := accepted _ given
      unfold Definitions.Slot.token at recalled
      split at recalled <;> cases recalled
    · cases given
  · cases given
  · cases given

theorem lexedComments {bytes : Bytes} {c : Comment}
    (member : c ∈ ((lexed bytes).map Lexed.result).filterMap lexedComment?) : CommentWhole c := by
  obtain ⟨_, inside, same⟩ := List.mem_filterMap.mp member
  obtain ⟨x, found, rfl⟩ := List.mem_map.mp inside
  rw [lexedStart] at found
  refine lexedFromAll (P := fun result => lexedComment? result = some c → CommentWhole c)
    ?_ _ ?_ _ _ found same
  · exact fun found given same => scanComment c.line found (stepComment given same)
  · intro d x ending same
    unfold Definitions.finish at ending
    split at ending
    · contradiction
    · cases List.mem_singleton.mp ending
      contradiction

/-! Parameters. -/

def FloatsIfNone (v : Values) : Prop := v.length = 0 → v = .floats []

theorem floatsNone (l : List Single) : FloatsIfNone (.floats l) :=
  fun none => congrArg Values.floats (List.length_eq_zero_iff.mp none)

structure ParamShaped (p : Parameter) : Prop where
  lone : p.isArray = false → p.values.length = 1
  empty : FloatsIfNone p.values

theorem tokenValues {t : Token} {v : Values × Bool} (same : t.values? = some v) :
    ParamShaped (.of v.1 v.2) := by
  have one {v : Values} {isArray : Bool} (length : v.length = 1) : ParamShaped (.of v isArray) :=
    ⟨fun _ => length, fun none => by simp [Parameter.of, length] at none⟩
  unfold Token.values? at same
  split at same <;> try contradiction
  · cases Option.some.inj same
    exact one rfl
  · cases Option.some.inj same
    exact one rfl
  · cases Option.some.inj same
    exact one rfl
  · cases Option.some.inj same
    exact ⟨Bool.noConfusion, floatsNone _⟩

theorem joinNone {new old v : Values} (filled : FloatsIfNone new)
    (joined : Collector.join? new old = some v) : FloatsIfNone v := by
  unfold Collector.join? at joined
  split at joined
  · rename_i a b
    cases Option.some.inj joined
    intro none
    cases a with
    | nil => cases filled rfl
    | cons n a => simp [Values.length] at none
  · rename_i a b
    cases Option.some.inj joined
    intro none
    cases a with
    | nil => cases filled rfl
    | cons n a => simp [Values.length] at none
  · contradiction
  · contradiction
  · simp only [Option.bind_eq_bind, Option.bind_eq_some_iff, Option.some.injEq] at joined
    obtain ⟨a, -, b, -, rfl⟩ := joined
    exact floatsNone _

/-- What an array has gathered is not empty, or is floats. -/
def Gathers (c : Collector) : Prop := ∀ v source, c.content = some (v, source) → FloatsIfNone v

theorem reverseNone {v : Values} (filled : FloatsIfNone v) : FloatsIfNone v.reverse := by
  intro none
  cases v <;> simp_all [FloatsIfNone, Values.reverse, Values.length]

theorem pushGathers {c : Collector} (gathers : Gathers c) {v : Values} (filled : FloatsIfNone v) :
    Gathers (c.push v).1 := by
  intro w source same
  unfold Collector.push at same
  split at same
  · cases Option.some.inj same
    exact reverseNone filled
  · split at same
    · rename_i joined
      cases Option.some.inj same
      exact joinNone (reverseNone filled) joined
    · exact gathers w source same

theorem finishShaped {c : Collector} (gathers : Gathers c) : ParamShaped c.finish := by
  unfold Collector.finish
  split
  · exact ⟨Bool.noConfusion, floatsNone []⟩
  · rename_i values source content
    exact ⟨Bool.noConfusion, reverseNone (gathers values source content)⟩

theorem takenShaped {a : Option Collector} (gathers : ∀ c ∈ a, Gathers c) (x : Result) :
    (∀ c ∈ (taken a x).array, Gathers c) ∧ ∀ p ∈ (taken a x).parameter, ParamShaped p := by
  unfold taken
  split
  · exact ⟨gathers, by simp⟩
  · split
    · exact ⟨by simp [Gathers, Collector.start], by simp⟩
    · exact ⟨by simp, by simp⟩
    · refine ⟨by simp, fun p member => ?_⟩
      obtain ⟨v, same, rfl⟩ := Option.map_eq_some_iff.mp member
      exact tokenValues same
  · rename_i c l
    have own := gathers c rfl
    split
    · exact ⟨gathers, by simp⟩
    · refine ⟨by simp, fun p member => ?_⟩
      cases Option.some.inj member
      exact finishShaped own
    · split
      · rename_i v same
        refine ⟨fun d member => ?_, by simp⟩
        cases Option.some.inj member
        exact pushGathers own (tokenValues same).empty
      · exact ⟨gathers, by simp⟩

theorem parametersShaped (body : List Result) {a : Option Collector} (gathers : ∀ c ∈ a, Gathers c) :
    ∀ p ∈ parametersOf a body, ParamShaped p := by
  induction body generalizing a with
  | nil => simp [parametersOf]
  | cons x body ih =>
    obtain ⟨array, parameter⟩ := takenShaped gathers x
    intro p member
    rcases List.mem_append.mp member with own | later
    · exact parameter p (Option.mem_toList.mp own)
    · exact ih array p later

/-! Entries. -/

theorem passedRequestless {body : List Result} {r : Request} : request r ∉ body.filterMap passed? := by
  intro member
  obtain ⟨x, -, same⟩ := List.mem_filterMap.mp member
  unfold passed? at same
  split at same <;> simp [request, remark] at same

theorem leadingRequestless {head : List Result} {r : Request} : request r ∉ leading head := by
  have behind (p : Problem) (rest : List Result) :
      request r ∉ Except.error p :: rest.filterMap passed? := by
    intro member
    rcases List.mem_cons.mp member with same | later
    · contradiction
    · exact passedRequestless later
  induction head with
  | nil => exact List.not_mem_nil
  | cons x head ih =>
    unfold leading
    split
    · exact behind _ head
    · intro member
      rcases List.mem_cons.mp member with same | later
      · exact Entry.noConfusion (Except.ok.inj same)
      · exact ih later
    · exact behind _ head

theorem decodedParameters {bytes : Bytes} {r : Request} (member : request r ∈ decode bytes) :
    ∀ p ∈ r.params, ParamShaped p := by
  rw [decodeGroups] at member
  rcases List.mem_append.mp member with head | groups
  · exact absurd head leadingRequestless
  · obtain ⟨g, -, own⟩ := List.mem_flatMap.mp groups
    unfold Group.items at own
    split at own
    · rcases List.mem_append.mp own with body | comments
      · split at body
        · cases Except.ok.inj (List.mem_singleton.mp body)
          exact parametersShaped g.body (by simp)
        · simp [request] at body
      · simp [request, remark] at comments
    · rcases List.mem_cons.mp own with same | later
      · contradiction
      · exact absurd later passedRequestless

theorem decodedComment {bytes : Bytes} {c : Comment} (member : remark c ∈ decode bytes) :
    CommentWhole c := by
  have told : c ∈ (decode bytes).filterMap comment? := List.mem_filterMap.mpr ⟨_, member, rfl⟩
  rw [decodeComments] at told
  exact lexedComments told

end SceneStream.Stream
