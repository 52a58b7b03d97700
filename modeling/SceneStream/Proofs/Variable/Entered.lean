import SceneStream.Proofs.Variable.Binding

/-! What a list leaves in the dictionary. Its tokens are entered in their order, each at its first use, and to
have met some of them before makes no difference to what is there in the end. -/
namespace SceneStream

namespace Dictionary
variable {d e : Dictionary} {t u : TokenValue}

def meet (d : Dictionary) (t : TokenValue) : Dictionary :=
  match d.resolve t.token with
  | .ok (e, _, _) => e
  | .error _ => d

def Met (d : Dictionary) (t : TokenValue) : Prop :=
  (d.find? t.token).isSome ∨ Declaration.ofToken? t.token = none

theorem resolveCases (d : Dictionary) (token : String) :
    ((d.find? token).isSome ∧ ∃ n x, d.resolve token = .ok (d, n, x)) ∨
    (d.find? token = none ∧ ∃ x, Declaration.ofToken? token = some x ∧
      d.resolve token = .ok (d.insert token x, d.size, x)) ∨
    (d.find? token = none ∧ Declaration.ofToken? token = none ∧ d.resolve token = .error (undeclared token)) := by
  unfold resolve
  split
  · rename_i n found
    exact .inl ⟨by rw [found]; rfl, n, _, rfl⟩
  · rename_i new
    cases read : Declaration.ofToken? token with
    | some x => exact .inr (.inl ⟨new, x, rfl, rfl⟩)
    | none => exact .inr (.inr ⟨new, rfl, rfl⟩)

theorem meetGrows (d : Dictionary) (t : TokenValue) : d.Grows (d.meet t) := by
  unfold meet
  split
  · exact (resolveOk ‹_›).1
  · exact .refl

theorem metSame (met : d.Met t) : d.meet t = d := by
  unfold meet
  rcases resolveCases d t.token with ⟨-, n, x, same⟩ | ⟨new, x, read, -⟩ | ⟨-, -, same⟩
  · rw [same]
  · rcases met with found | unread
    · rw [new] at found
      cases found
    · cases read.symm.trans unread
  · rw [same]

theorem metNow (d : Dictionary) (t : TokenValue) : (d.meet t).Met t := by
  unfold meet
  rcases resolveCases d t.token with ⟨found, n, x, same⟩ | ⟨new, x, read, same⟩ | ⟨-, unread, same⟩
  · rw [same]
    exact .inl found
  · rw [same]
    exact .inl (by simp [find?, insert])
  · rw [same]
    exact .inr unread

theorem metGrows (grows : d.Grows e) (met : d.Met t) : e.Met t := by
  refine met.imp (fun found => ?_) id
  obtain ⟨n, found⟩ := Option.isSome_iff_exists.mp found
  rw [growsFind grows found]
  rfl

def meetAll (d : Dictionary) (list : List TokenValue) : Dictionary := list.foldl meet d

theorem meetAllGrows (d : Dictionary) (list : List TokenValue) : d.Grows (d.meetAll list) := by
  induction list generalizing d with
  | nil => exact .refl
  | cons t list ih => exact growsTrans (meetGrows d t) (ih (d.meet t))

theorem metAll (d : Dictionary) (list : List TokenValue) : ∀ t ∈ list, (d.meetAll list).Met t := by
  induction list generalizing d with
  | nil => exact nofun
  | cons u list ih =>
    intro t mem
    rcases List.mem_cons.mp mem with rfl | later
    · exact metGrows (meetAllGrows (d.meet t) list) (metNow d t)
    · exact ih (d.meet u) t later

theorem meetAllSame {list : List TokenValue} (met : ∀ t ∈ list, d.Met t) : d.meetAll list = d := by
  induction list with
  | nil => rfl
  | cons t list ih =>
    obtain ⟨first, rest⟩ := List.forall_mem_cons.mp met
    show (d.meet t).meetAll list = d
    rw [metSame first, ih rest]

theorem meetBefore (d : Dictionary) (before after : List TokenValue) :
    (d.meetAll before).meetAll (before ++ after) = d.meetAll (before ++ after) := by
  unfold meetAll
  rw [List.foldl_append, List.foldl_append]
  exact congrArg (List.foldl meet · after) (meetAllSame (metAll d before))

end Dictionary

namespace Variables
variable {counts : ValueCounts} {d : Dictionary}

theorem enterLeaves (counts : ValueCounts) (vars : Variables) (t : TokenValue) (d : Dictionary) :
    ((enter counts vars t).run d).2 = d.meet t := by
  have run := Declaring.resolveRun t.token d
  simp only [enter, Work.runBind, run, Dictionary.meet]
  cases d.resolve t.token with
  | error p => rfl
  | ok y =>
    obtain ⟨e, n, x⟩ := y
    simp only [Work.runGet]
    cases check x (e.width x) counts t.value <;> rfl

theorem enterAllLeaves {vars w : Variables} {list : List TokenValue}
    (done : ((list.foldlM (enter counts) vars).run d).1 = .ok w) :
    ((list.foldlM (enter counts) vars).run d).2 = d.meetAll list := by
  induction list generalizing vars d with
  | nil => rfl
  | cons t list ih =>
    have leaves := enterLeaves counts vars t d
    rw [List.foldlM_cons, Work.runBind] at done ⊢
    cases run : (enter counts vars t).run d with
    | mk x e =>
      rw [run] at done leaves
      cases x with
      | error p => cases done
      | ok vars =>
        subst leaves
        exact ih done

theorem bindLeaves {vars : Variables} {list : List TokenValue} (done : ((bind counts list).run d).1 = .ok vars) :
    ((bind counts list).run d).2 = d.meetAll list := enterAllLeaves done

theorem bindMet (counts : ValueCounts) (d : Dictionary) (before after : List TokenValue) :
    ((bind counts (before ++ after)).run (d.meetAll before)).1 = ((bind counts (before ++ after)).run d).1 ∧
    ∀ vars, ((bind counts (before ++ after)).run d).1 = .ok vars →
      (bind counts (before ++ after)).run (d.meetAll before) = (bind counts (before ++ after)).run d := by
  have same : ((bind counts (before ++ after)).run (d.meetAll before)).1 =
      ((bind counts (before ++ after)).run d).1 := by
    rw [bindRun, bindRun, entryGrows (Dictionary.meetAllGrows d before)]
  refine ⟨same, fun vars done => Prod.ext same ?_⟩
  rw [bindLeaves done, bindLeaves (same.trans done), Dictionary.meetBefore]

end Variables
end SceneStream
