import SceneStream.Proofs.Work
import SceneStream.Request.Spatial

/-! Readers of arguments end in a value or in a problem of the request, never in one of the program. -/
namespace SceneStream.Args
open SceneStream.Work

theorem missingExpected (a : Args) (what : String) : (a.missing what).Expected := nofun

theorem wrongTypeExpected (a : Args) (what : String) (found : BasicType) :
    (a.wrongType what found).Expected := nofun

theorem outOfRangeExpected (kind : RequestKind) (message : String) :
    (outOfRange kind message).Expected := nofun

theorem safeTake {α : Type} (a : Args) (p : Parameter) (what : String) {f : Option α → Read α}
    (found : ∀ x, f (some x) = do
      set (a.advance p)
      return x)
    (missed : f none = throw (a.missing what)) (value : Option α) : Safe (f value) := by
  cases value with
  | some x =>
    rw [found]
    exact safeBind (safeSet _) fun _ => safePure _
  | none =>
    rw [missed]
    exact safeThrow (missingExpected _ _)

theorem safeFloat : Safe float := by
  unfold float
  refine safeBind safeGet fun a => ?_
  split
  · rename_i p _
    dsimp only
    split
    · exact safeBind (safePure _) (safeTake a p "float" (fun _ => rfl) rfl)
    · exact safeBind (safePure _) (safeTake a p "float" (fun _ => rfl) rfl)
    · exact yieldsThrowBind (wrongTypeExpected _ _ _) _
  · exact safeThrow (missingExpected _ _)

theorem safeInt : Safe int := by
  unfold int
  refine safeBind safeGet fun a => ?_
  split
  · rename_i p _
    dsimp only
    split
    · exact safeBind (safePure _) (safeTake a p "integer" (fun _ => rfl) rfl)
    · split
      · split
        · split
          · exact safeBind (safePure _) (safeTake a p "integer" (fun _ => rfl) rfl)
          · exact yieldsThrowBind (by nofun) _
        · exact yieldsThrowBind (by nofun) _
      · exact safeBind (safePure _) (safeTake a p "integer" (fun _ => rfl) rfl)
    · exact yieldsThrowBind (wrongTypeExpected _ _ _) _
  · exact safeThrow (missingExpected _ _)

theorem floatListLength (n : Nat) : Yields (fun l => l.length = n) (floatList n) := by
  induction n with
  | zero => exact yieldsPure rfl
  | succ n ih =>
    refine safeBind safeFloat fun x => yieldsBind ih fun rest length => yieldsPure ?_
    exact congrArg (· + 1) length

theorem safeWhole {α : Type} (what : String) (view : Parameter → Option α) :
    Safe (whole what view) := by
  unfold whole
  refine safeBind safeGet fun a => ?_
  dsimp only
  split
  · exact yieldsThrowBind (by nofun) _
  · split
    · split
      · exact safeBind (safeSet _) fun _ => safePure _
      · exact safeThrow (wrongTypeExpected _ _ _)
    · exact safeThrow (missingExpected _ _)

theorem safeFloatArray : Safe floatArray := safeWhole _ _
theorem safeIntArray : Safe intArray := safeWhole _ _
theorem safeString : Safe string := safeWhole _ _
theorem safeStringArray : Safe stringArray := safeWhole _ _

theorem safeCounts (kind : RequestKind) (l : List Int32) : Outcome.Safe (counts kind l) := by
  induction l with
  | nil => exact trivial
  | cons n l ih =>
    unfold counts
    split
    · exact nofun
    · exact Outcome.safeMap ih _

theorem safeCountArray : Safe countArray :=
  safeBind safeIntArray fun _ => safeBind safeGet fun _ => yieldsMk (safeCounts _ _)

theorem safePairs (kind : RequestKind) (l : List Parameter) : Outcome.Safe (pairs kind l) := by
  fun_induction pairs kind l with
  | case1 => exact trivial
  | case2 => exact nofun
  | case3 => exact nofun
  | case4 p token found value rest ih => exact Outcome.safeMap ih _

theorem safeTokenList : Safe tokenList := by
  refine safeBind safeGet fun a => ?_
  dsimp only
  split
  · exact yieldsThrowBind (by nofun) _
  · exact yieldsMk (safePairs _ _)

theorem readMap {α β : Type} (r : Request) (m : Read α) (f : α → β) :
    read r (do return f (← m)) = (read r m).map f := by
  simp only [read, runBind]
  cases m.run (of r) with
  | mk x a => cases x <;> rfl

theorem yieldsRead {α : Type} {P : α → Prop} {m : Read α} (h : Yields P m) (r : Request) :
    Outcome.Yields P (read r m) := h (of r)

theorem safeRead {α : Type} {m : Read α} (h : Safe m) (r : Request) : Outcome.Safe (read r m) :=
  yieldsRead h r

theorem safeWord {α : Type} (what : String) (choice : String → Option α) :
    Safe (word what choice) := by
  refine safeBind safeGet fun a => safeBind safeString fun name => ?_
  split
  · exact safePure _
  · exact safeThrow (by nofun)

theorem safeDouble : Safe double := safeBind safeFloat fun _ => safePure _

theorem safeVec : Safe vec :=
  safeBind safeDouble fun _ => safeBind safeDouble fun _ => safeBind safeDouble fun _ => safePure _

theorem safeQuad : Safe quad :=
  safeBind safeFloat fun _ => safeBind safeFloat fun _ => safeBind safeFloat fun _ =>
    safeBind safeFloat fun _ => safePure _

theorem safeMatrix : Safe matrix :=
  safeBind safeQuad fun _ => safeBind safeQuad fun _ => safeBind safeQuad fun _ =>
    safeBind safeQuad fun _ => safePure _

theorem safePackedMatrix : Safe packedMatrix := by
  refine safeBind safeGet fun a => safeBind safeFloatArray fun l => ?_
  split
  · exact safePure _
  · exact safeThrow (by nofun)

theorem basisStep : Yields (fun b => 0 < b.step) basis := by
  refine safeBind ?_ fun b => safeBind safeGet fun a => safeBind safeInt fun n => ?_
  · refine safeBind safeGet fun a => ?_
    split
    · exact safeWord _ _
    · exact safeBind safePackedMatrix fun _ => safePure _
  · split
    · rename_i positive
      have whole : 0 < n.toInt := Int32.lt_iff_toInt_lt.mp positive
      refine yieldsPure ?_
      show 0 < n.toInt.toNat
      omega
    · exact yieldsThrow (outOfRangeExpected _ _)

end SceneStream.Args
