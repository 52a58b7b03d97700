import Mathlib.Data.List.Nodup
import Mathlib.Data.List.Perm.Basic
import SceneStream.Proofs.Variable

/-! Binding, pair by pair. A token that declares itself is entered on the way and changes the meaning of none by it,
so every pair is judged by the dictionary as it was at first, and their order decides no more than which of two
values of one name is the later. -/
namespace SceneStream

namespace Dictionary

/-- What a token stands for, entered already or not. -/
def meaning (d : Dictionary) (token : String) : Except Problem Declaration := (d.resolve token).map (·.2.2)

variable {d e : Dictionary}

theorem meaningFound {token : String} {n : Nat} {x : Declaration} (found : d.find? token = some n)
    (gives : d.get? n = some x) : d.meaning token = .ok x := by
  unfold meaning resolve
  split
  · rename_i m named
    obtain rfl : m = n := Option.some.inj (named.symm.trans found)
    have same : d.get? m = some (d.get m (findInside named)) := dif_pos _
    exact congrArg Except.ok (Option.some.inj (same.symm.trans gives))
  · rename_i new
    cases new.symm.trans found

theorem meaningNew {token : String} (new : d.find? token = none) :
    d.meaning token = match Declaration.ofToken? token with
      | some x => .ok x
      | none => .error (undeclared token) := by
  unfold meaning resolve
  split
  · rename_i n named
    cases named.symm.trans new
  · cases Declaration.ofToken? token <;> rfl

theorem findGives {token : String} {n : Nat} (found : d.find? token = some n) : ∃ x, d.get? n = some x :=
  ⟨_, dif_pos (findInside found)⟩

theorem insertMeaning {token : String} {x : Declaration} (new : d.find? token = none)
    (read : Declaration.ofToken? token = some x) (other : String) :
    (d.insert token x).meaning other = d.meaning other := by
  have entered : (d.insert token x).find? other = if other = token then some d.size else d.find? other :=
    Named.getCons token d.size d.tokens other
  by_cases same : other = token
  · subst same
    rw [meaningFound (entered.trans (if_pos rfl)) (insertNewest d other x), meaningNew new, read]
  · rw [if_neg same] at entered
    cases found : d.find? other with
    | some n =>
      obtain ⟨y, gives⟩ := findGives found
      rw [meaningFound (entered.trans found) (insertGet gives), meaningFound found gives]
    | none => rw [meaningNew (entered.trans found), meaningNew found]

theorem meaningGrows (grows : d.Grows e) (token : String) : e.meaning token = d.meaning token := by
  induction grows with
  | refl => rfl
  | inline _ new read ih => exact (insertMeaning new read token).trans ih

/-- The name under which a token's values are bound. -/
def name? (d : Dictionary) (token : String) : Option String := (d.meaning token).toOption.map (·.name)

theorem widthGrows (grows : d.Grows e) (x : Declaration) : e.width x = d.width x :=
  congrArg x.width (growsColorSamples grows)

end Dictionary

namespace Values

theorem floatsLength {v : Values} {l : List Single} (done : v.floats? = some l) : l.length = v.length := by
  cases v with
  | integers k => simp [← Option.some.inj done, length]
  | floats k => simp [← Option.some.inj done, length]
  | strings k =>
    cases k with
    | nil => simp [← Option.some.inj done, length]
    | cons s k => simp [floats?] at done

theorem mapMLength {α β : Type} {f : α → Option β} {l : List α} {r : List β} (done : l.mapM f = some r) :
    r.length = l.length := by
  induction l generalizing r with
  | nil => simp [← Option.some.inj done]
  | cons a l ih =>
    simp only [List.mapM_cons, bind, Option.bind_eq_some_iff, pure] at done
    obtain ⟨b, -, rest, tail, last⟩ := done
    simp [← Option.some.inj last, ih tail]

theorem integersLength {v : Values} {l : List Int32} (done : v.integers? = some l) : l.length = v.length := by
  cases v with
  | integers k => simp [← Option.some.inj done, length]
  | floats k => exact mapMLength done
  | strings k =>
    cases k with
    | nil => simp [← Option.some.inj done, length]
    | cons s k => simp [integers?] at done

theorem convertLength {target : BasicType} {v w : Values} (done : v.convert? target = some w) :
    w.length = v.length := by
  unfold convert? at done
  split at done
  · obtain ⟨l, read, rfl⟩ := Option.map_eq_some_iff.mp done
    exact floatsLength read
  · obtain ⟨l, read, rfl⟩ := Option.map_eq_some_iff.mp done
    exact integersLength read
  · split at done
    · cases done
      rfl
    · split at done
      · rename_i none
        cases done
        exact (beq_iff_eq.mp none).symm
      · cases done

end Values

namespace Named
variable {α : Type}

def Ordered (m : Named α) : Prop := m.Pairwise fun x y => x.1 < y.1

theorem insertOrdered {m : Named α} (ordered : m.Ordered) (name : String) (x : α) : (m.insert name x).Ordered := by
  induction m with
  | nil => exact List.pairwise_singleton ..
  | cons z m ih =>
    obtain ⟨k, y⟩ := z
    obtain ⟨first, rest⟩ := List.pairwise_cons.mp ordered
    unfold insert
    split
    · rename_i before
      refine List.pairwise_cons.mpr ⟨fun w mem => ?_, ordered⟩
      rcases List.mem_cons.mp mem with rfl | later
      · exact before
      · exact String.lt_trans before (first w later)
    · rename_i before
      split
      · rename_i same
        subst same
        exact List.pairwise_cons.mpr ⟨first, rest⟩
      · rename_i apart
        have after : k < name := (Std.lt_trichotomy name k).resolve_left before |>.resolve_left apart
        refine List.pairwise_cons.mpr ⟨fun w mem => ?_, ih rest⟩
        rcases memInsert mem with rfl | old
        · exact after
        · exact first w old

theorem orderedNames {m : Named α} (ordered : m.Ordered) : (m.map Prod.fst).Nodup := by
  refine List.pairwise_map.mpr (ordered.imp fun {x y} less same => ?_)
  rw [same] at less
  exact String.lt_irrefl _ less

theorem orderedGet {m : Named α} (ordered : m.Ordered) {name : String} {x : α} :
    (name, x) ∈ m ↔ m.get? name = some x := by
  refine ⟨fun mem => ?_, memGet⟩
  induction m with
  | nil => cases mem
  | cons z m ih =>
    obtain ⟨k, y⟩ := z
    obtain ⟨first, rest⟩ := List.pairwise_cons.mp ordered
    rw [getCons]
    rcases List.mem_cons.mp mem with same | later
    · cases same
      exact if_pos rfl
    · have less : k < name := first _ later
      rw [if_neg (String.ne_of_lt less).symm]
      exact ih rest later

theorem orderedSame {m n : Named α} (first : m.Ordered) (second : n.Ordered) (same : ∀ y, y ∈ m ↔ y ∈ n) : m = n := by
  have once {l : Named α} (ordered : l.Ordered) : l.Nodup := List.Nodup.of_map Prod.fst (orderedNames ordered)
  refine List.Perm.eq_of_pairwise (fun x y _ _ less more => ?_) first second
    ((List.perm_ext_iff_of_nodup (once first) (once second)).mpr same)
  exact absurd more (String.lt_asymm less)

def enterAll (m : Named α) (l : List (String × α)) : Named α := l.foldl (fun m y => m.insert y.1 y.2) m

theorem enterAllOrdered {m : Named α} (ordered : m.Ordered) (l : List (String × α)) : (m.enterAll l).Ordered := by
  induction l generalizing m with
  | nil => exact ordered
  | cons y l ih => exact ih (insertOrdered ordered y.1 y.2)

theorem enterAllGet (m : Named α) (l : List (String × α)) (name : String) :
    (m.enterAll l).get? name = (l.reverse.lookup name).or (m.get? name) := by
  induction l generalizing m with
  | nil => rfl
  | cons y l ih =>
    have step : List.lookup name [y] = if name = y.1 then some y.2 else none := getCons y.1 y.2 [] name
    rw [List.reverse_cons, List.lookup_append, Option.or_assoc, step]
    refine (ih (m.insert y.1 y.2)).trans (congrArg _ ?_)
    rw [getInsert]
    split <;> rfl

theorem enterAllMem {l : List (String × α)} {name : String} {x : α} :
    (name, x) ∈ enterAll [] l ↔ l.reverse.lookup name = some x := by
  have ordered := enterAllOrdered (m := []) List.Pairwise.nil l
  rw [orderedGet ordered, enterAllGet, show get? ([] : Named α) name = none from rfl, Option.or_none]

theorem enterAllNames {l : List (String × α)} {name : String} :
    name ∈ (enterAll [] l).map Prod.fst ↔ name ∈ l.map Prod.fst := by
  constructor
  · intro mem
    obtain ⟨⟨name, x⟩, inside, rfl⟩ := List.mem_map.mp mem
    obtain ⟨later, earlier, split, -⟩ := List.lookup_eq_some_iff.mp (enterAllMem.mp inside)
    have first : (name, x) ∈ l := List.mem_reverse.mp (split ▸ List.mem_append_right _ (List.mem_cons_self ..))
    exact List.mem_map_of_mem first
  · intro mem
    obtain ⟨y, inside, rfl⟩ := List.mem_map.mp mem
    cases found : l.reverse.lookup y.1 with
    | some x => exact List.mem_map.mpr ⟨(y.1, x), enterAllMem.mpr found, rfl⟩
    | none =>
      have other := List.lookup_eq_none_iff.mp found y (List.mem_reverse.mpr inside)
      simp at other

end Named

namespace Outcome
variable {α β : Type} {f : α → Outcome β}

theorem mapMOk {l : List α} {r : List β} : l.mapM f = .ok r ↔ l.map f = r.map .ok := by
  induction l generalizing r with
  | nil => cases r <;> simp [pure, Except.pure]
  | cons a l ih =>
    rw [List.mapM_cons]
    constructor
    · intro done
      obtain ⟨b, first, done⟩ := okBind done
      obtain ⟨rest, next, last⟩ := okBind done
      cases last
      rw [List.map_cons, List.map_cons, first, ih.mp next]
    · intro same
      obtain ⟨b, rest, rfl, first, next⟩ := List.map_eq_cons_iff.mp same.symm
      rw [← first, ih.mpr next.symm]
      rfl

theorem mapMSucceeds {l : List α} : (∃ r, l.mapM f = .ok r) ↔ ∀ a ∈ l, ∃ b, f a = .ok b := by
  simp only [mapMOk]
  constructor
  · rintro ⟨r, same⟩ a mem
    obtain ⟨b, -, made⟩ := List.mem_map.mp (same ▸ List.mem_map_of_mem mem)
    exact ⟨b, made.symm⟩
  · intro each
    induction l with
    | nil => exact ⟨[], rfl⟩
    | cons a l ih =>
      obtain ⟨first, rest⟩ := List.forall_mem_cons.mp each
      obtain ⟨b, made⟩ := first
      obtain ⟨r, same⟩ := ih rest
      exact ⟨b :: r, congrArg₂ List.cons made same⟩

theorem mapMPerm {l k : List α} {r : List β} (perm : l.Perm k) (done : l.mapM f = .ok r) :
    ∃ s, k.mapM f = .ok s ∧ r.Perm s := by
  obtain ⟨s, other⟩ := mapMSucceeds.mpr fun a mem => mapMSucceeds.mp ⟨r, done⟩ a (perm.mem_iff.mpr mem)
  have same : (r.map Except.ok).Perm (s.map (Except.ok : β → Outcome β)) := by
    rw [← mapMOk.mp done, ← mapMOk.mp other]
    exact perm.map f
  exact ⟨s, other, (List.map_perm_map_iff fun a b => Except.ok.inj).mp same⟩

end Outcome

namespace Variables
variable {counts : ValueCounts} {d e : Dictionary}

def entry (counts : ValueCounts) (d : Dictionary) (t : TokenValue) : Outcome (String × Variable) := do
  let x ← d.meaning t.token
  let v ← check x (d.width x) counts t.value
  return (x.name, v)

theorem entryGrows (grows : d.Grows e) : entry counts e = entry counts d := by
  funext t
  simp only [entry, Dictionary.meaningGrows grows, Dictionary.widthGrows grows]

def enter (counts : ValueCounts) (vars : Variables) (t : TokenValue) : Declaring Variables := do
  let x ← Declaring.resolve t.token
  let v ← Declaring.lift (check x ((← get).width x) counts t.value)
  return vars.insert x.name v

theorem enterRun (counts : ValueCounts) (vars : Variables) (t : TokenValue) (d : Dictionary) :
    ((enter counts vars t).run d).1 = (entry counts d t).map (fun y => vars.insert y.1 y.2) ∧
    d.Grows ((enter counts vars t).run d).2 := by
  have run := Declaring.resolveRun t.token d
  simp only [enter, entry, Work.runBind, run, Dictionary.meaning]
  cases found : d.resolve t.token with
  | error p => exact ⟨rfl, .refl⟩
  | ok y =>
    obtain ⟨e, n, x⟩ := y
    have grows := (Dictionary.resolveOk found).1
    simp only [Work.runGet, Dictionary.widthGrows grows]
    change _ = Except.map _ (check x (d.width x) counts t.value >>= fun v => pure (x.name, v)) ∧ _
    cases check x (d.width x) counts t.value with
    | error p => exact ⟨rfl, grows⟩
    | ok v => exact ⟨rfl, grows⟩

theorem enterAllRun (counts : ValueCounts) (vars : Variables) (list : List TokenValue) (d : Dictionary) :
    ((list.foldlM (enter counts) vars).run d).1 = (list.mapM (entry counts d)).map vars.enterAll := by
  induction list generalizing vars d with
  | nil => rfl
  | cons t list ih =>
    obtain ⟨outcome, grows⟩ := enterRun counts vars t d
    rw [List.foldlM_cons, List.mapM_cons, Work.runBind]
    cases run : (enter counts vars t).run d with
    | mk x e =>
      rw [run] at outcome grows
      cases made : entry counts d t with
      | error p =>
        rw [made] at outcome
        cases outcome
        rfl
      | ok y =>
        rw [made] at outcome
        cases outcome
        simp only [ih, entryGrows grows]
        cases list.mapM (entry counts d) <;> rfl

theorem bindRun (counts : ValueCounts) (list : List TokenValue) (d : Dictionary) :
    ((bind counts list).run d).1 = (list.mapM (entry counts d)).map (Named.enterAll []) :=
  enterAllRun counts [] list d

/-- A pair that can be bound, and as what. -/
structure Accepts (counts : ValueCounts) (d : Dictionary) (t : TokenValue) (x : Declaration) : Prop where
  stands : d.meaning t.token = .ok x
  converts : (t.value.values.convert? x.basic).isSome
  length : t.value.length = counts.get x.storage * d.width x

/-- What a pair that stands for `x` is bound to. -/
structure Gives (counts : ValueCounts) (d : Dictionary) (t : TokenValue) (x : Declaration) (v : Variable) : Prop
    extends Made counts x (d.width x) v where
  stands : d.meaning t.token = .ok x
  values : t.value.values.convert? x.basic = some v.values

/-- The last pair that stands for a declaration of that name. -/
def Latest (d : Dictionary) (list : List TokenValue) (name : String) (t : TokenValue) : Prop :=
  ∃ before after, list = before ++ t :: after ∧ d.name? t.token = some name ∧
    ∀ s ∈ after, d.name? s.token ≠ some name

theorem checkOk {x : Declaration} {width : Nat} {p : Parameter} {v : Variable} :
    check x width counts p = .ok v ↔ Made counts x width v ∧ p.values.convert? x.basic = some v.values := by
  have made := checkEnds x width counts p
  constructor
  · intro done
    rw [done] at made
    refine ⟨made, ?_⟩
    unfold check at done
    dsimp only at done
    split at done
    · cases done
    · rename_i values converted
      split at done
      · cases done
        exact converted
      · cases done
  · rintro ⟨⟨storage, kind, rfl, fits⟩, converted⟩
    simp only [check, converted, ← storage, ← kind, if_pos fits.length]

theorem entryOk {t : TokenValue} {y : String × Variable} :
    entry counts d t = .ok y ↔ ∃ x, x.name = y.1 ∧ Gives counts d t x y.2 := by
  constructor
  · intro done
    obtain ⟨x, stands, done⟩ := Outcome.okBind done
    obtain ⟨v, checked, last⟩ := Outcome.okBind done
    cases last
    obtain ⟨made, values⟩ := checkOk.mp checked
    exact ⟨x, rfl, made, stands, values⟩
  · rintro ⟨x, name, made, stands, values⟩
    unfold entry
    rw [stands]
    change (check x (d.width x) counts t.value >>= fun v => pure (x.name, v)) = _
    rw [checkOk.mpr ⟨made, values⟩, name]
    rfl

theorem entryAccepts {t : TokenValue} : (∃ y, entry counts d t = .ok y) ↔ ∃ x, Accepts counts d t x := by
  simp only [entryOk]
  constructor
  · rintro ⟨y, x, -, gives⟩
    have same := Values.convertLength gives.values
    refine ⟨x, gives.stands, by rw [gives.values]; rfl, same.symm.trans ?_⟩
    rw [gives.fits.length, gives.storage, gives.width]
  · rintro ⟨x, stands, converts, length⟩
    obtain ⟨values, converted⟩ := Option.isSome_iff_exists.mp converts
    have held := (Values.convertLength converted).trans length
    refine ⟨(x.name, ⟨x.storage, x.kind, d.width x, values⟩), x, rfl, ⟨rfl, rfl, rfl, ?_⟩, stands, converted⟩
    exact ⟨Values.convertBasic converted, held⟩

theorem entryName {t : TokenValue} {y : String × Variable} (made : entry counts d t = .ok y) :
    d.name? t.token = some y.1 := by
  obtain ⟨x, name, gives⟩ := entryOk.mp made
  rw [Dictionary.name?, gives.stands, ← name]
  rfl

theorem entriesNames {list : List TokenValue} {r : List (String × Variable)}
    (made : list.map (entry counts d) = r.map .ok) :
    list.filterMap (fun t => d.name? t.token) = r.map Prod.fst := by
  induction list generalizing r with
  | nil =>
    cases r with
    | nil => rfl
    | cons y r => cases made
  | cons t list ih =>
    obtain ⟨y, rest, rfl, first, next⟩ := List.map_eq_cons_iff.mp made.symm
    rw [List.filterMap_cons, entryName first.symm, List.map_cons, ← ih next.symm]

theorem latestEntry {list : List TokenValue} {r : List (String × Variable)}
    (made : list.map (entry counts d) = r.map .ok) {name : String} {v : Variable} :
    (name, v) ∈ Named.enterAll [] r ↔ ∃ t, Latest d list name t ∧ entry counts d t = .ok (name, v) := by
  rw [Named.enterAllMem, List.lookup_eq_some_iff]
  constructor
  · rintro ⟨later, earlier, split, none⟩
    have turned : r = earlier.reverse ++ (name, v) :: later.reverse := by
      rw [← List.reverse_reverse r, split]
      simp
    rw [turned, List.map_append, List.map_cons] at made
    obtain ⟨before, rest, rfl, -, made⟩ := List.map_eq_append_iff.mp made
    obtain ⟨t, after, rfl, here, made⟩ := List.map_eq_cons_iff.mp made
    refine ⟨t, ⟨before, after, rfl, entryName here, fun s mem same => ?_⟩, here⟩
    obtain ⟨y, inside, gives⟩ := List.mem_map.mp (made ▸ List.mem_map_of_mem (f := entry counts d) mem)
    have other := none y (List.mem_reverse.mp inside)
    rw [entryName gives.symm] at same
    exact bne_iff_ne.mp other (Option.some.inj same).symm
  · rintro ⟨t, ⟨before, after, rfl, -, none⟩, here⟩
    rw [List.map_append, List.map_cons, here] at made
    obtain ⟨earlier, rest, rfl, -, made⟩ := List.map_eq_append_iff.mp made.symm
    obtain ⟨y, later, rfl, same, tail⟩ := List.map_eq_cons_iff.mp made
    cases same
    refine ⟨later.reverse, earlier.reverse, by simp, fun y mem => bne_iff_ne.mpr fun same => ?_⟩
    have inside : y.1 ∈ later.map Prod.fst := List.mem_map_of_mem (List.mem_reverse.mp mem)
    rw [← entriesNames tail.symm] at inside
    obtain ⟨s, member, named⟩ := List.mem_filterMap.mp inside
    exact none s member (same ▸ named)

theorem enteredMem {list : List TokenValue} {r : List (String × Variable)}
    (made : list.map (entry counts d) = r.map .ok) (distinct : (list.filterMap fun t => d.name? t.token).Nodup)
    (y : String × Variable) : y ∈ Named.enterAll [] r ↔ y ∈ r := by
  have names : (r.map Prod.fst).Nodup := entriesNames made ▸ distinct
  obtain ⟨name, v⟩ := y
  rw [Named.enterAllMem, List.lookup_eq_some_iff]
  constructor
  · rintro ⟨later, earlier, split, -⟩
    exact List.mem_reverse.mp (split ▸ List.mem_append_right _ (List.mem_cons_self ..))
  · intro mem
    obtain ⟨earlier, later, rfl⟩ := List.append_of_mem mem
    refine ⟨later.reverse, earlier.reverse, by simp, fun y inside => bne_iff_ne.mpr fun same => ?_⟩
    rw [List.map_append, List.map_cons, List.nodup_append] at names
    exact (List.nodup_cons.mp names.2.1).1 (List.mem_map.mpr ⟨y, List.mem_reverse.mp inside, same.symm⟩)

/-- Binding succeeds just where each pair can be bound by itself, as the dictionary was. Then each name that a token
of the list declares is bound once, to what the last pair of that name gives. Where no name is declared twice, another
order of the pairs binds the same or fails likewise, and no order changes what any token stands for. -/
theorem bindingIsExact (counts : ValueCounts) (d : Dictionary) (list : List TokenValue) :
    let run (l : List TokenValue) := (bind counts l).run d
    ((∃ vars, (run list).1 = .ok vars) ↔ ∀ t ∈ list, ∃ x, Accepts counts d t x) ∧
    (∀ vars, (run list).1 = .ok vars →
      (vars.map Prod.fst).Nodup ∧
      (∀ name, name ∈ vars.map Prod.fst ↔ ∃ t ∈ list, d.name? t.token = some name) ∧
      ∀ name v, (name, v) ∈ vars ↔ ∃ t x, Latest d list name t ∧ x.name = name ∧ Gives counts d t x v) ∧
    (∀ token, (run list).2.meaning token = d.meaning token) ∧
    ∀ other, list.Perm other → (list.filterMap fun t => d.name? t.token).Nodup →
      (run list).1.toOption = (run other).1.toOption ∧
      ∀ token, (run list).2.meaning token = (run other).2.meaning token := by
  intro run
  have outcome (l : List TokenValue) : (run l).1 = (l.mapM (entry counts d)).map (Named.enterAll []) :=
    bindRun counts l d
  have meaning (l : List TokenValue) (token : String) : (run l).2.meaning token = d.meaning token :=
    Dictionary.meaningGrows (bindEnds counts l d).grows token
  refine ⟨?_, fun vars done => ?_, meaning list, fun other perm distinct => ⟨?_, fun token => ?_⟩⟩
  · simp only [← entryAccepts, ← Outcome.mapMSucceeds, outcome]
    cases list.mapM (entry counts d) <;> simp [Except.map]
  · rw [outcome] at done
    obtain ⟨r, made, rfl⟩ := Outcome.okMap done
    rw [Outcome.mapMOk] at made
    have ordered := Named.enterAllOrdered (List.Pairwise.nil : Named.Ordered ([] : Variables)) r
    have holds (name : String) (v : Variable) : (name, v) ∈ Named.enterAll [] r ↔
        ∃ t x, Latest d list name t ∧ x.name = name ∧ Gives counts d t x v := by
      simp only [latestEntry made, entryOk]
      exact ⟨fun ⟨t, latest, x, gives⟩ => ⟨t, x, latest, gives⟩, fun ⟨t, x, latest, gives⟩ => ⟨t, latest, x, gives⟩⟩
    refine ⟨Named.orderedNames ordered, fun name => ?_, holds⟩
    rw [← List.mem_filterMap, entriesNames made]
    exact Named.enterAllNames
  · rw [outcome, outcome]
    cases made : list.mapM (entry counts d) with
    | ok r =>
      obtain ⟨s, same, permuted⟩ := Outcome.mapMPerm perm made
      rw [same]
      have first := enteredMem (Outcome.mapMOk.mp made) distinct
      have second := enteredMem (Outcome.mapMOk.mp same) ((perm.filterMap _).nodup_iff.mp distinct)
      refine congrArg some (Named.orderedSame ?_ ?_ fun y => ?_)
      · exact Named.enterAllOrdered List.Pairwise.nil r
      · exact Named.enterAllOrdered List.Pairwise.nil s
      · rw [first, second, permuted.mem_iff]
    | error p =>
      cases same : other.mapM (entry counts d) with
      | error q => rfl
      | ok s =>
        obtain ⟨r, back, -⟩ := Outcome.mapMPerm perm.symm same
        cases made.symm.trans back
  · rw [meaning list, meaning other]

def ramp : List TokenValue :=
  [⟨"s", .of (.integers [0, 1]) true⟩, ⟨"t", .of (.floats [.ofInt 0, .ofInt 1]) true⟩]

theorem rampBindsEitherWay :
    (∃ vars, ((bind (.points 2) ramp).run .initial).1 = .ok vars) ∧
    ((bind (.points 2) ramp).run .initial).1.toOption = ((bind (.points 2) ramp.reverse).run .initial).1.toOption := by
  have law := bindingIsExact (.points 2) .initial ramp
  refine ⟨law.1.mpr fun t mem => ?_, (law.2.2.2 ramp.reverse (ramp.reverse_perm).symm (by decide +kernel)).1⟩
  rcases List.mem_cons.mp mem with rfl | mem
  · exact ⟨⟨"s", .varying, .float, 1, false⟩, by decide +kernel, by decide +kernel, by decide +kernel⟩
  · obtain rfl := List.mem_singleton.mp mem
    exact ⟨⟨"t", .varying, .float, 1, false⟩, by decide +kernel, by decide +kernel, by decide +kernel⟩

end Variables
end SceneStream
