import SceneStream.Proofs.Session.Reachable
import SceneStream.Proofs.Session.Veil

/-! A session and its echo: the same but for where they stand, for what was told before, and for an archive
that nothing mentions. Whatever both are asked, the echo stays one. -/
namespace SceneStream

def Request.archive? (r : Request) : Option String :=
  match r.kind with
  | .archiveBegin | .readArchive => (Args.read r Args.string).toOption
  | _ => none

namespace Session
open SceneStream.Work

def Silence (name : String) (rs : List Request) : Prop := ∀ r ∈ rs, r.archive? ≠ some name

instance (name : String) (rs : List Request) : Decidable (Silence name rs) :=
  inferInstanceAs (Decidable (∀ r ∈ rs, r.archive? ≠ some name))

/-- Nothing that may be played mentions the archive, but what is stored under its own name. -/
structure Quiet (name : String) (s : Session) : Prop where
  objects : ∀ y ∈ s.objects, Silence name y.2
  archives : ∀ y ∈ s.archives, y.1 ≠ name → Silence name y.2
  recording : ∀ x, s.recording = some x → Silence name x.requests
  files : ∀ path source, s.files.openSource path = .ok source →
    ∀ r, .ok (.request r) ∈ source.items → r.archive? ≠ some name

structure Stand where
  depth : Nat
  notices : List Notice

def Veil.stand (v : Veil) : Stand := ⟨v.depth, v.notices⟩

structure Twins (name : String) (a b : Stand) (settled : Bool) (v w : Veil) : Prop where
  archives : w.archives.filter (·.1 ≠ name) = v.archives.filter (·.1 ≠ name)
  objects : w.objects = v.objects
  recording : w.recording = v.recording
  files : w.files = v.files
  first : v.stand = a
  second : w.stand = b
  fresh : settled = true → v.isFresh = false
  isFresh : w.isFresh = false

/-- Where it is settled that the context has begun, neither of the two is fresh. -/
inductive Echoes (name : String) (o : SessionOptions) (a b : Stand) (settled : Bool) :
    Session → Session → Prop where
  | mk {c : Session} {v w : Veil} (twins : Twins name a b settled v w) (options : c.options = o)
      (quiet : Quiet name (c.veil v)) : Echoes name o a b settled (c.veil v) (c.veil w)

/-- Both end alike, and `E` holds of what is left. -/
structure Echoing {α : Type} (E : Session → Session → Prop) (m n : Run α) (s t : Session) : Prop where
  outcome : (n.run t).1 = (m.run s).1
  after : E (m.run s).2 (n.run t).2

section Echoing
variable {α β : Type} {E : Session → Session → Prop} {m n : Run α} {s t : Session}

theorem echoingRun {x : Except Problem α} {u v : Session} (left : m.run s = (x, u))
    (right : n.run t = (x, v)) (after : E u v) : Echoing E m n s t := by
  refine ⟨?_, ?_⟩ <;> rw [left, right]
  exact after

theorem echoingBind {f g : α → Run β} (first : Echoing E m n s t)
    (next : ∀ x u v, E u v → Echoing E (f x) (g x) u v) : Echoing E (m >>= f) (n >>= g) s t := by
  obtain ⟨outcome, after⟩ := first
  have left := runBind m f s
  have right := runBind n g t
  cases run : m.run s with
  | mk x u =>
    cases other : n.run t with
    | mk y v =>
      rw [run, other] at outcome after
      cases outcome
      rw [run] at left
      rw [other] at right
      cases x with
      | error p => exact echoingRun left right after
      | ok a =>
        obtain ⟨same, last⟩ := next a u v after
        refine ⟨?_, ?_⟩ <;> rw [left, right]
        · exact same
        · exact last

theorem echoingGet {f g : Session → Run β} (next : Echoing E (f s) (g t) s t) :
    Echoing E (get >>= f) (get >>= g) s t := by
  refine ⟨?_, ?_⟩ <;> rw [runBind, runBind]
  · exact next.outcome
  · exact next.after

theorem echoingLift (x : Except Problem α) {f g : α → Run β} (still : E s t)
    (next : ∀ a, x = .ok a → Echoing E (f a) (g a) s t) :
    Echoing E (Run.lift x >>= f) (Run.lift x >>= g) s t := by
  cases x with
  | error p => exact echoingRun rfl rfl still
  | ok a => exact next a rfl

end Echoing

section Echoes
variable {α : Type} {name : String} {o : SessionOptions} {a b : Stand} {settled : Bool} {s t : Session}

theorem quietVeil {c d : Session} {v : Veil} (quiet : Quiet name (c.veil v)) : Quiet name (d.veil v) :=
  ⟨quiet.objects, quiet.archives, quiet.recording, quiet.files⟩

theorem echoesQuiet (echoes : Echoes name o a b settled s t) : Quiet name s := by
  obtain ⟨-, -, quiet⟩ := echoes
  exact quiet

theorem veiledEchoes {m : Run α} (veiled : Veiled m) (echoes : Echoes name o a b settled s t) :
    Echoing (Echoes name o a b settled) m m s t := by
  obtain ⟨twins, options, quiet⟩ := echoes
  exact echoingRun (veiled.run _ _) (veiled.run _ _)
    ⟨twins, (congrArg Seat.options (veiled.seated _)).trans options, quietVeil quiet⟩

theorem contextEchoes (echoes : Echoes name o a b settled s t) :
    Echoing (Echoes name o a b settled) (enter .context) (enter .context) s t := by
  obtain @⟨c, v, w, twins, options, quiet⟩ := echoes
  have run (x : Veil) := enterRun .context (c.veil x)
  cases pushed : c.modes.push .context with
  | error p =>
    simp only [veilModes, pushed] at run
    exact echoingRun (run v) (run w) ⟨twins, options, quiet⟩
  | ok modes =>
    simp only [veilModes, pushed] at run
    refine echoingRun (run v) (run w) (.mk (c := reset { c with modes })
      (v := { v with archives := [], objects := [] }) (w := { w with archives := [], objects := [] })
      ?_ options ?_)
    · exact { twins with archives := rfl, objects := rfl }
    · exact ⟨nofun, nofun, quiet.recording, quiet.files⟩

theorem recordEchoes (target : Target) (echoes : Echoes name o a b settled s t) :
    Echoing (Echoes name o a b settled) (record target) (record target) s t := by
  obtain @⟨c, v, w, twins, options, quiet⟩ := echoes
  refine echoingRun rfl rfl (.mk (c := c) (v := { v with recording := some ⟨target, [], 0⟩ })
    (w := { w with recording := some ⟨target, [], 0⟩ }) ?_ options ?_)
  · exact { twins with recording := rfl }
  · exact ⟨quiet.objects, quiet.archives, by rintro _ ⟨⟩; exact nofun, quiet.files⟩

theorem addEchoes {x : Recording} (silent : Silence name x.requests)
    (echoes : Echoes name o a b settled s t) :
    Echoes name o a b settled { s with recording := some x } { t with recording := some x } := by
  obtain @⟨c, v, w, twins, options, quiet⟩ := echoes
  refine .mk (c := c) (v := { v with recording := some x }) (w := { w with recording := some x })
    { twins with recording := rfl } options ⟨quiet.objects, quiet.archives, ?_, quiet.files⟩
  rintro _ ⟨⟩
  exact silent

theorem keepEchoes {x : Recording} (silent : Silence name x.requests)
    (echoes : Echoes name o a b settled s t) :
    Echoing (Echoes name o a b settled) (keep x) (keep x) s t := by
  obtain @⟨c, v, w, twins, options, quiet⟩ := echoes
  have run (y : Veil) := keepRun x (c.veil y)
  have stored : Silence name x.requests.reverse := fun r mem => silent r (List.mem_reverse.mp mem)
  have idle : Quiet name (c.veil { v with recording := none }) :=
    ⟨quiet.objects, quiet.archives, nofun, quiet.files⟩
  cases popped : c.modes.pop (Target.mode x.target) with
  | error p =>
    simp only [veilModes, popped] at run
    exact echoingRun (run v) (run w) (.mk (c := c) (v := { v with recording := none })
      (w := { w with recording := none }) { twins with recording := rfl } options idle)
  | ok modes =>
    simp only [veilModes, popped] at run
    refine echoingRun (run v) (run w) ?_
    unfold defined
    cases target : x.target with
    | object h =>
      refine .mk (c := { c with modes })
        (v := { v with recording := none, objects := (h, x.requests.reverse) :: v.objects })
        (w := { w with recording := none, objects := (h, x.requests.reverse) :: w.objects })
        ?_ options ⟨?_, idle.archives, idle.recording, idle.files⟩
      · exact { twins with recording := rfl, objects := congrArg ((h, x.requests.reverse) :: ·) twins.objects }
      · exact List.forall_mem_cons.mpr ⟨stored, idle.objects⟩
    | archive other =>
      refine .mk (c := { c with modes })
        (v := { v with recording := none, archives := (other, x.requests.reverse) :: v.archives })
        (w := { w with recording := none, archives := (other, x.requests.reverse) :: w.archives })
        ?_ options ⟨idle.objects, ?_, idle.recording, idle.files⟩
      · refine { twins with recording := rfl, archives := ?_ }
        rw [List.filter_cons, List.filter_cons, twins.archives]
      · exact List.forall_mem_cons.mpr ⟨fun _ => stored, idle.archives⟩

theorem finishEchoes {x : Recording} (silent : Silence name x.requests) (r : Request)
    (echoes : Echoes name o a b settled s t) :
    Echoing (Echoes name o a b settled) (finishRecording x r) (finishRecording x r) s t :=
  echoingBind (keepEchoes silent echoes) fun _ _ _ => veiledEchoes (veiledTell (.done r))

theorem recordArchiveEchoes {x : Recording} {r : Request} (silent : Silence name (r :: x.requests))
    (echoes : Echoes name o a b settled s t) :
    Echoing (Echoes name o a b settled) (recordArchive x r) (recordArchive x r) s t := by
  have add (nested : Nat) : Echoing (Echoes name o a b settled)
      (modify fun s => { s with recording := some (Recording.add r { x with nested }) } : Run Unit)
      (modify fun s => { s with recording := some (Recording.add r { x with nested }) }) s t :=
    echoingRun rfl rfl (addEchoes silent echoes)
  unfold recordArchive
  dsimp only
  split
  · exact add _
  · exact finishEchoes (List.forall_mem_cons.mp silent).2 r echoes
  · exact add _
  · exact add _

theorem recordObjectEchoes {x : Recording} {r : Request} (silent : Silence name (r :: x.requests))
    (echoes : Echoes name o a b settled s t) :
    Echoing (Echoes name o a b settled) (recordObject x r) (recordObject x r) s t := by
  have finish := finishEchoes (List.forall_mem_cons.mp silent).2 r echoes
  obtain @⟨c, v, w, twins, options, quiet⟩ := echoes
  have run (y : Veil) := recordObjectRun x r (c.veil y)
  cases checked : c.check r with
  | error p =>
    simp only [veilCheck, checked] at run
    exact echoingRun (run v) (run w) ⟨twins, options, quiet⟩
  | ok _ =>
    simp only [veilCheck, checked] at run
    by_cases ends : r.kind = .objectEnd
    · simp only [ends, if_true] at run
      refine ⟨?_, ?_⟩ <;> rw [run v, run w]
      · exact finish.outcome
      · exact finish.after
    · simp only [ends, if_false] at run
      cases next : followed c.modes r.kind with
      | error p =>
        simp only [veilModes, next] at run
        exact echoingRun (run v) (run w) ⟨twins, options, quiet⟩
      | ok modes =>
        simp only [veilModes, next] at run
        have moved : Echoes name o a b settled ({ c with modes }.veil v) ({ c with modes }.veil w) :=
          ⟨twins, options, quietVeil quiet⟩
        exact echoingRun (run v) (run w) (addEchoes (x := x.add r) silent moved)

/-! Requests that play others. -/

theorem lookupOther {β : Type} (l : List (String × β)) {other : String} (differs : other ≠ name) :
    (l.filter (·.1 ≠ name)).lookup other = l.lookup other := by
  induction l with
  | nil => rfl
  | cons y l ih =>
    obtain ⟨k, x⟩ := y
    by_cases same : k = name
    · have apart : (other == k) = false := by simpa [same] using differs
      rw [List.filter_cons_of_neg (by simpa using same), ih, List.lookup_cons, apart]
    · rw [List.filter_cons_of_pos (by simpa using same), List.lookup_cons, List.lookup_cons, ih]

def Answers (name : String) (f : Session → Request → Session) : Prop :=
  ∀ o a b s t r, r.archive? ≠ some name → Echoes name o a b true s t →
    Echoes name o a b true (f s r) (f t r)

variable {play : Player}

theorem requestsEchoes {f : Session → Request → Session} (answers : Answers name f)
    {rs : List Request} (silent : Silence name rs) (echoes : Echoes name o a b true s t) :
    Echoes name o a b true (rs.foldl f s) (rs.foldl f t) := by
  induction rs generalizing s t with
  | nil => exact echoes
  | cons r rs ih =>
    obtain ⟨first, rest⟩ := List.forall_mem_cons.mp silent
    exact ih rest (answers o a b s t r first echoes)

theorem takeEchoes {f : Session → Request → Session} (answers : Answers name f) {x : Stream.Item}
    (silent : ∀ r, x = .ok (.request r) → r.archive? ≠ some name)
    (echoes : Echoes name o a b true s t) : Echoes name o a b true (take f s x) (take f t x) := by
  have answer (r : Request) (same : x = .ok (.request r)) :=
    answers o a b s t r (silent r same) echoes
  obtain @⟨c, v, w, twins, options, quiet⟩ := echoes
  have still : Echoes name o a b true (c.veil v) (c.veil w) := ⟨twins, options, quiet⟩
  unfold take
  rw [show (c.veil w).aborted = (c.veil v).aborted from rfl]
  split
  · exact still
  · split
    · exact answer _ rfl
    · split
      · exact (veiledEchoes (veiledTell _) still).after
      · exact still
    · exact (veiledEchoes (veiledReport _) still).after

theorem streamEchoes {f : Session → Request → Session} (answers : Answers name f)
    {source : Stream.Source} (silent : ∀ r, .ok (.request r) ∈ source.items → r.archive? ≠ some name)
    (label : String) (echoes : Echoes name o a b true s t) :
    Echoes name o a b true (readWith f source label s) (readWith f source label t) := by
  have named {s t : Session} (echoes : Echoes name o a b true s t) (stream : Option String) :
      Echoes name o a b true { s with stream } { t with stream } := by
    obtain @⟨c, v, w, twins, options, quiet⟩ := echoes
    exact .mk (c := { c with stream }) twins options (quietVeil quiet)
  have items (l : List Stream.Item) (subset : l ⊆ source.items) {s t : Session}
      (echoes : Echoes name o a b true s t) :
      Echoes name o a b true (l.foldl (take f) s) (l.foldl (take f) t) := by
    induction l generalizing s t with
    | nil => exact echoes
    | cons x l ih =>
      obtain ⟨first, rest⟩ := List.cons_subset.mp subset
      exact ih rest (takeEchoes answers (fun r same => silent r (same ▸ first)) echoes)
  have same : t.stream = s.stream := by
    cases echoes
    rfl
  unfold readWith
  rw [same]
  exact named (items source.items (List.Subset.refl _) (named echoes _)) _

theorem deeperEchoes (answers : ∀ f, play = some f → Answers name f) (kind : RequestKind)
    {work : (Session → Request → Session) → Session → Session}
    (works : ∀ f, Answers name f → ∀ {a b s t}, Echoes name o a b true s t →
      Echoes name o a b true (work f s) (work f t))
    (echoes : Echoes name o a b true s t) :
    Echoing (Echoes name o a b true) (deeper play kind work) (deeper play kind work) s t := by
  obtain @⟨c, v, w, twins, rfl, quiet⟩ := echoes
  cases play with
  | none => exact echoingRun rfl rfl ⟨twins, rfl, quiet⟩
  | some f =>
    have below : Echoes name c.options ⟨v.depth + 1, v.notices⟩ ⟨w.depth + 1, w.notices⟩ true
        { c.veil v with depth := (c.veil v).depth + 1 }
        { c.veil w with depth := (c.veil w).depth + 1 } :=
      .mk (c := c) (v := { v with depth := v.depth + 1 }) (w := { w with depth := w.depth + 1 })
        { twins with first := rfl, second := rfl } rfl
        ⟨quiet.objects, quiet.archives, quiet.recording, quiet.files⟩
    have after := works f (answers f rfl) below
    have left := deeperRun f kind work (c.veil v)
    have right := deeperRun f kind work (c.veil w)
    generalize work f { c.veil v with depth := (c.veil v).depth + 1 } = u at after left
    generalize work f { c.veil w with depth := (c.veil w).depth + 1 } = u' at after right
    obtain @⟨d, x, y, played, options, silent⟩ := after
    -- Both come back to where they stood; what was told below stays told.
    refine echoingRun left right (.mk (c := d) (v := { x with depth := v.depth })
      (w := { y with depth := w.depth }) ?_ options
      ⟨silent.objects, silent.archives, silent.recording, silent.files⟩)
    obtain ⟨-, earlier⟩ := Stand.mk.inj played.first
    obtain ⟨-, later⟩ := Stand.mk.inj played.second
    refine { played with first := ?_, second := ?_ }
    · rw [← twins.first]
      exact congrArg (Stand.mk v.depth) earlier
    · rw [← twins.second]
      exact congrArg (Stand.mk w.depth) later

theorem archiveEchoes (answers : ∀ f, play = some f → Answers name f) {other : String}
    (differs : other ≠ name) (echoes : Echoes name o a b true s t) :
    Echoing (Echoes name o a b true) (readArchive play other) (readArchive play other) s t := by
  have deep {work : (Session → Request → Session) → Session → Session}
      (works : ∀ f, Answers name f → ∀ {a b s t}, Echoes name o a b true s t →
        Echoes name o a b true (work f s) (work f t)) :=
    deeperEchoes answers .readArchive works echoes
  refine echoingGet ?_
  obtain @⟨c, v, w, twins, rfl, quiet⟩ := echoes
  have still : Echoes name c.options a b true (c.veil v) (c.veil w) := ⟨twins, rfl, quiet⟩
  have stored : (c.veil w).archives.lookup other = (c.veil v).archives.lookup other := by
    have same := congrArg (List.lookup other) twins.archives
    rwa [lookupOther _ differs, lookupOther _ differs] at same
  dsimp only
  rw [stored]
  cases found : (c.veil v).archives.lookup other with
  | some rs =>
    refine deep fun f answers _ _ _ _ => requestsEchoes answers ?_
    obtain ⟨before, after, split, -⟩ := List.lookup_eq_some_iff.mp found
    exact quiet.archives (other, rs) (by simp [split]) differs
  | none =>
    dsimp only
    split
    · exact echoingRun rfl rfl still
    · rw [show (c.veil w).files = (c.veil v).files from twins.files,
        show (c.veil w).options = (c.veil v).options from rfl]
      cases opened : (c.veil v).files.openSource ((c.veil v).options.archivePath other) with
      | error e => exact echoingRun rfl rfl still
      | ok source =>
        exact deep fun f answers _ _ _ _ => streamEchoes answers (quiet.files _ source opened) other

/-! All requests. -/

theorem plainEchoes (answers : ∀ f, play = some f → Answers name f) {r : Request}
    (silent : r.archive? ≠ some name) (others : plays r.kind = true)
    (echoes : Echoes name o a b true s t) :
    Echoing (Echoes name o a b true) (applyPlain play r) (applyPlain play r) s t := by
  unfold applyPlain
  obtain kind | kind := playsKind others <;> simp only [kind]
  · refine echoingLift _ echoes fun h _ => echoingGet ?_
    have objects : t.objects = s.objects := by
      obtain ⟨twins, -, -⟩ := echoes
      exact twins.objects
    rw [objects]
    split
    · rename_i rs found
      obtain ⟨before, after, split, -⟩ := List.lookup_eq_some_iff.mp found
      have stored : Silence name rs := (echoesQuiet echoes).objects (h, rs) (by simp [split])
      exact deeperEchoes answers _ (fun f answers _ _ _ _ => requestsEchoes answers stored) echoes
    · exact echoingRun rfl rfl echoes
  · refine echoingLift _ echoes fun other read => archiveEchoes answers ?_ echoes
    rintro rfl
    exact silent (by simp [Request.archive?, kind, read, Except.toOption])

theorem applyEchoes (answers : ∀ f, play = some f → Answers name f) {r : Request}
    (silent : r.archive? ≠ some name) (echoes : Echoes name o a b true s t) :
    Echoing (Echoes name o a b true) (apply play r) (apply play r) s t := by
  cases others : plays r.kind with
  | true =>
    rw [playsPlainly play others]
    exact plainEchoes answers silent others echoes
  | false =>
    cases inner : begins r.kind with
    | false => exact veiledEchoes (veiledApply play others inner) echoes
    | true =>
      unfold begins at inner
      split at inner
      · rename_i kind
        simp only [apply, kind, Mode.openedBy]
        exact contextEchoes echoes
      · rename_i kind
        simp only [apply, kind]
        refine echoingLift _ echoes fun h _ => ?_
        exact echoingBind (veiledEchoes (veiledEnter (by decide)) echoes) fun _ _ _ =>
          recordEchoes (.object h)
      · rename_i kind
        simp only [apply, kind]
        refine echoingLift _ echoes fun other _ => ?_
        exact echoingBind (veiledEchoes (veiledEnter (by decide)) echoes) fun _ _ _ =>
          recordEchoes (.archive other)
      · cases inner

theorem settledEchoes (echoes : Echoes name o a b true s t) : Echoes name o a b settled s t := by
  obtain ⟨twins, options, quiet⟩ := echoes
  exact ⟨{ twins with fresh := fun _ => twins.fresh rfl }, options, quiet⟩

/-- No context is begun while it is not settled that one has begun. -/
theorem executeEchoes (answers : ∀ f, play = some f → Answers name f) {r : Request}
    (silent : r.archive? ≠ some name) (inner : settled = true ∨ r.kind ≠ .beginContext)
    (echoes : Echoes name o a b settled s t) :
    Echoing (Echoes name o a b settled) (execute play r) (execute play r) s t := by
  obtain @⟨c, v, w, twins, options, quiet⟩ := echoes
  have left : ¬ Confirms (c.veil v) r := fun ⟨begins, fresh⟩ => by
    obtain settled | other := inner
    · exact absurd (twins.fresh settled) (ne_false_of_eq_true fresh)
    · exact other begins
  have right : ¬ Confirms (c.veil w) r := fun ⟨_, fresh⟩ =>
    absurd twins.isFresh (ne_false_of_eq_true fresh)
  cases checked : c.check r with
  | error p =>
    exact echoingRun (executeRefused play left checked) (executeRefused play right checked)
      ⟨twins, options, quiet⟩
  | ok _ =>
    have counted : Echoes name o a b true (sampled (c.veil v) r) (sampled (c.veil w) r) :=
      .mk (c := sampled c r) (v := { v with isFresh := false }) (w := { w with isFresh := false })
        { twins with fresh := fun _ => rfl, isFresh := rfl } options
        ⟨quiet.objects, quiet.archives, quiet.recording, quiet.files⟩
    have told {u u' : Session} (echoes : Echoes name o a b true u u') :
        Echoes name o a b settled (u.tell (.done r)) (u'.tell (.done r)) :=
      settledEchoes (veiledEchoes (veiledTell _) echoes).after
    obtain ⟨passed, applied⟩ := executeRun play left checked
    obtain ⟨passed', applied'⟩ := executeRun play right checked
    by_cases later : IsLater c r
    · exact echoingRun (passed later) (passed' later) (told counted)
    · have first := applied later
      have second := applied' later
      obtain ⟨outcome, after⟩ := applyEchoes answers silent counted
      cases run : (apply play r).run (sampled (c.veil v) r) with
      | mk x u =>
        cases other : (apply play r).run (sampled (c.veil w) r) with
        | mk y u' =>
          rw [run] at first outcome after
          rw [other] at second outcome after
          cases outcome
          cases x with
          | ok _ => exact echoingRun first second (told after)
          | error p => exact echoingRun first second (settledEchoes after)

theorem dispatchEchoes (answers : ∀ f, play = some f → Answers name f) {r : Request}
    (silent : r.archive? ≠ some name) (inner : settled = true ∨ r.kind ≠ .beginContext)
    (echoes : Echoes name o a b settled s t) :
    Echoing (Echoes name o a b settled) (dispatch play r) (dispatch play r) s t := by
  refine echoingGet ?_
  have same : t.recording = s.recording := by
    obtain ⟨twins, -, -⟩ := echoes
    exact twins.recording
  rw [same]
  cases recording : s.recording with
  | none => exact executeEchoes answers silent inner echoes
  | some x =>
    have written : Silence name (r :: x.requests) :=
      List.forall_mem_cons.mpr ⟨silent, (echoesQuiet echoes).recording x recording⟩
    dsimp only
    split
    · exact recordArchiveEchoes written echoes
    · exact recordObjectEchoes written echoes

theorem stepEchoes (answers : ∀ f, play = some f → Answers name f) {r : Request}
    (silent : r.archive? ≠ some name) (inner : settled = true ∨ r.kind ≠ .beginContext)
    (echoes : Echoes name o a b settled s t) :
    Echoes name o a b settled (step play s r) (step play t r) := by
  obtain ⟨outcome, after⟩ := dispatchEchoes answers silent inner echoes
  have stopped : t.aborted = s.aborted := by
    cases echoes
    rfl
  unfold step
  rw [stopped]
  split
  · exact echoes
  · cases run : (dispatch play r).run s with
    | mk x u =>
      cases other : (dispatch play r).run t with
      | mk y u' =>
        rw [run, other] at outcome after
        cases outcome
        cases x with
        | ok _ => exact after
        | error p => exact (veiledEchoes (veiledFail (p.atLine r.line)) after).after

theorem answersAt (n : Nat) : Answers name (processAt n) := by
  induction n with
  | zero =>
    refine fun o a b s t r silent => stepEchoes (fun f same => ?_) silent (.inl rfl)
    cases same
  | succ n ih =>
    refine fun o a b s t r silent => stepEchoes (fun f same => ?_) silent (.inl rfl)
    cases same
    exact ih

theorem processAtEchoes (n : Nat) {r : Request} (silent : r.archive? ≠ some name)
    (inner : settled = true ∨ r.kind ≠ .beginContext) (echoes : Echoes name o a b settled s t) :
    Echoes name o a b settled (processAt n s r) (processAt n t r) := by
  cases n with
  | zero =>
    refine stepEchoes (fun f same => ?_) silent inner echoes
    cases same
  | succ n =>
    refine stepEchoes (fun f same => ?_) silent inner echoes
    cases same
    exact answersAt n

end Echoes
end Session
end SceneStream
