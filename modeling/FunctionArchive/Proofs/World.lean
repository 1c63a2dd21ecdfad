import FunctionArchive.Proofs.Manifest.Answer
import FunctionArchive.World

/-!
# What work leaves behind

Work changes a state and may fail; what was done until then stays done. `Ends before work after
failed` says that, begun in a state with the property `before`, it leaves a state with the property
`after` when it succeeds and one with the property `failed` when it fails. The rules follow the ways
in which work is put together.

An action is work on a world. In a world that knows nothing but the truth about its disk, an action
that leaves the disk alone gives what the questions yield that it asks (`Action.Gives`).
-/

set_option autoImplicit false

namespace FunctionArchive

/-- Work on a state that may fail. -/
abbrev Work (ε σ : Type) := ExceptT ε (StateM σ)

namespace Work

variable {ε σ α β ι : Type}

/-! ## Runs -/

theorem run_bind (work : Work ε σ α) (f : α → Work ε σ β) (s : σ) :
    (work >>= f).run s =
      match work.run s with
      | (.ok a, s') => (f a).run s'
      | (.error flaw, s') => (.error flaw, s') := by
  show (match work s with
    | (outcome, s') => ExceptT.bindCont f outcome s') = _
  show _ = match work s with
    | (.ok a, s') => (f a).run s'
    | (.error flaw, s') => (.error flaw, s')
  rcases work s with ⟨outcome | outcome, s'⟩ <;> rfl

theorem run_tryCatch (work : Work ε σ α) (handle : ε → Work ε σ α) (s : σ) :
    (tryCatch work handle).run s =
      match work.run s with
      | (.ok a, s') => (.ok a, s')
      | (.error flaw, s') => (handle flaw).run s' := by
  rcases result : work.run s with ⟨outcome, s'⟩
  change work s = (outcome, s') at result
  change ExceptT.tryCatch work handle s = _
  cases outcome <;> simp only [ExceptT.tryCatch, ExceptT.mk, bind, StateT.bind, result] <;> rfl

theorem run_get (s : σ) : (get : Work ε σ σ).run s = (.ok s, s) := rfl

theorem run_tryFinally (work : Work ε σ α) (last : Work ε σ Unit) (s : σ) :
    (tryFinally work last).run s =
      match work.run s with
      | (outcome, s') =>
        match last.run s' with
        | (.ok (), s'') => (outcome, s'')
        | (.error flaw, s'') => (.error flaw, s'') := by
  rcases result : work.run s with ⟨outcome, s'⟩
  rcases result' : last.run s' with ⟨outcome', s''⟩
  change work s = (outcome, s') at result
  change last s' = (outcome', s'') at result'
  unfold tryFinally
  simp only [Functor.map, ExceptT.map, tryFinally', ExceptT.mk, bind, StateT.bind, ExceptT.run]
  rw [result]
  cases outcome <;> simp only [result'] <;> cases outcome' <;> rfl

/-! ## Ends -/

/-- Work that has ended well in one sort of state, or has failed in another. -/
structure Ended (after : α → σ → Prop) (failed : ε → σ → Prop)
    (result : Except ε α × σ) : Prop where
  well : ∀ a, result.1 = .ok a → after a result.2
  badly : ∀ flaw, result.1 = .error flaw → failed flaw result.2

/-- What work leaves behind, from every state that has a property. -/
def Ends (before : σ → Prop) (work : Work ε σ α) (after : α → σ → Prop) (failed : ε → σ → Prop) :
    Prop :=
  ∀ s, before s → Ended after failed (work.run s)

variable {before : σ → Prop} {work : Work ε σ α} {f : α → Work ε σ β} {after : α → σ → Prop}
  {last : β → σ → Prop} {failed : ε → σ → Prop}

theorem ended_ok {a : α} {s : σ} : Ended after failed (.ok a, s) ↔ after a s := by
  refine ⟨fun ended => ended.well a rfl, fun holds => ⟨?_, nofun⟩⟩
  rintro _ ⟨⟩
  exact holds

theorem ended_error {flaw : ε} {s : σ} : Ended after failed (.error flaw, s) ↔ failed flaw s := by
  refine ⟨fun ended => ended.badly flaw rfl, fun holds => ⟨nofun, ?_⟩⟩
  rintro _ ⟨⟩
  exact holds

namespace Ends

theorem mono {after' : α → σ → Prop} {failed' : ε → σ → Prop}
    (ends : Ends before work after failed) (weaken : ∀ a s, after a s → after' a s)
    (weaken' : ∀ flaw s, failed flaw s → failed' flaw s) : Ends before work after' failed' := by
  intro s start
  obtain ⟨well, badly⟩ := ends s start
  exact ⟨fun a ok => weaken _ _ (well a ok), fun flaw error => weaken' _ _ (badly flaw error)⟩

theorem weaken {before' : σ → Prop} (ends : Ends before work after failed)
    (holds : ∀ s, before' s → before s) : Ends before' work after failed :=
  fun s start => ends s (holds s start)

theorem and {before' : σ → Prop} {after' : α → σ → Prop} {failed' : ε → σ → Prop}
    (ends : Ends before work after failed) (ends' : Ends before' work after' failed') :
    Ends (fun s => before s ∧ before' s) work (fun a s => after a s ∧ after' a s)
      (fun flaw s => failed flaw s ∧ failed' flaw s) := by
  rintro s ⟨start, start'⟩
  obtain ⟨well, badly⟩ := ends s start
  obtain ⟨well', badly'⟩ := ends' s start'
  exact ⟨fun a ok => ⟨well a ok, well' a ok⟩, fun flaw error =>
    ⟨badly flaw error, badly' flaw error⟩⟩

/-- Nothing is said. -/
theorem anything : Ends (fun _ => True) work (fun _ _ => True) (fun _ _ => True) :=
  fun _ _ => ⟨fun _ _ => trivial, fun _ _ => trivial⟩

/-- What is known of the beginning besides the state may be used. -/
theorem given {fact : Prop} (ends : fact → Ends before work after failed) :
    Ends (fun s => before s ∧ fact) work after failed :=
  fun s start => ends start.2 s start.1

theorem pure {a : α} (holds : ∀ s, before s → after a s) :
    Ends before (Pure.pure a : Work ε σ α) after failed :=
  fun s start => ended_ok.mpr (holds s start)

theorem bind (first : Ends before work after failed)
    (next : ∀ a, Ends (after a) (f a) last failed) : Ends before (work >>= f) last failed := by
  intro s start
  have firstEnds := first s start
  rw [run_bind]
  generalize work.run s = ended at firstEnds ⊢
  obtain ⟨outcome, s'⟩ := ended
  cases outcome with
  | ok a => exact next a s' (ended_ok.mp firstEnds)
  | error flaw => exact ended_error.mpr (ended_error.mp firstEnds)

/-- Nothing is said about work that is only done under a condition. -/
theorem skip {c : Prop} [Decidable c] {next : PUnit → Work ε σ β} {work : Work ε σ PUnit}
    (ends : ∀ a, Ends (fun _ => True) (next a) last fun _ _ => True) :
    Ends (fun _ => True) (if c then next () else work >>= next) last fun _ _ => True := by
  split
  · exact ends ()
  · exact .bind .anything ends

/-- Work that depends on the state in which it begins. -/
theorem get {f : σ → Work ε σ β} (next : ∀ s, before s → Ends (· = s) (f s) last failed) :
    Ends before (MonadState.get >>= f) last failed := by
  intro s start
  rw [run_bind, run_get]
  exact next s start s rfl

/-- Work after which the state is put in order, however the work ended. -/
theorem afterwards {tidy : Work ε σ Unit} {g : σ → σ} {mid : α → σ → Prop}
    {midFailed : ε → σ → Prop} (tidies : ∀ s, tidy.run s = (.ok (), g s))
    (first : Ends before work mid midFailed) (well : ∀ a s, mid a s → after a (g s))
    (badly : ∀ flaw s, midFailed flaw s → failed flaw (g s)) :
    Ends before (tryFinally work tidy) after failed := by
  intro s start
  have firstEnds := first s start
  rw [run_tryFinally]
  generalize work.run s = ended at firstEnds ⊢
  obtain ⟨outcome, s'⟩ := ended
  dsimp only
  rw [tidies]
  cases outcome with
  | ok a => exact ended_ok.mpr (well a s' (ended_ok.mp firstEnds))
  | error flaw => exact ended_error.mpr (badly flaw s' (ended_error.mp firstEnds))

/-- Work that goes through some items and keeps a property keeps it as a whole. -/
theorem mapM {kept : σ → Prop} {g : ι → Work ε σ α} (items : List ι)
    (each : ∀ item ∈ items, Ends kept (g item) (fun _ => kept) failed) :
    Ends kept (items.mapM g) (fun _ => kept) failed := by
  induction items with
  | nil => exact .pure fun _ => id
  | cons item rest ih =>
      rw [List.mapM_cons]
      refine .bind (each item List.mem_cons_self) fun a => ?_
      refine .bind (ih fun other member => each other (List.mem_cons_of_mem _ member)) fun as => ?_
      exact .pure fun _ => id

/-- Work that goes through some items, where what holds of the state depends on the items that are
done, and that gives for each of them what a function gives. -/
theorem mapM_along {kept : List ι → σ → Prop} {g : ι → Work ε σ α} {result : ι → α}
    {items : List ι} (each : ∀ done item rest, done ++ item :: rest = items →
      Ends (kept done) (g item) (fun a s => a = result item ∧ kept (done ++ [item]) s) failed) :
    Ends (kept []) (items.mapM g) (fun as s => as = items.map result ∧ kept items s) failed := by
  have onwards (rest done : List ι) (whole : done ++ rest = items) :
      Ends (kept done) (rest.mapM g) (fun as s => as = rest.map result ∧ kept items s) failed := by
    induction rest generalizing done with
    | nil =>
        rw [List.append_nil] at whole
        subst whole
        exact .pure fun s holds => ⟨rfl, holds⟩
    | cons item rest ih =>
        rw [List.mapM_cons]
        refine .bind (each done item rest whole) fun a => ?_
        refine .weaken (.given fun first => ?_) fun s holds => And.symm holds
        refine .bind (ih (done ++ [item]) (by simpa using whole)) fun as => .pure ?_
        rintro s ⟨others, holds⟩
        exact ⟨by rw [first, others, List.map_cons], holds⟩
  exact onwards items [] rfl

/-- Work that goes through some items and, in a state of some sort, does with each what a function
does. -/
theorem foldlM {kept : σ → Prop} {good : ι → Prop} {g : β → ι → Work ε σ β} {step : β → ι → β}
    (items : List ι) (each : ∀ b, ∀ item ∈ items,
      Ends kept (g b item) (fun made s => kept s ∧ good item ∧ made = step b item) failed)
    (init : β) :
    Ends kept (items.foldlM g init)
      (fun made s => kept s ∧ (∀ item ∈ items, good item) ∧ made = items.foldl step init)
      failed := by
  induction items generalizing init with
  | nil => exact .pure fun s holds => ⟨holds, List.forall_mem_nil _, rfl⟩
  | cons item rest ih =>
      rw [List.foldlM_cons]
      refine .bind (each init item List.mem_cons_self) fun b => ?_
      refine .weaken (.given fun done => ?_) fun s holds => holds
      obtain ⟨isGood, rfl⟩ := done
      have others := ih (fun b other member => each b other (List.mem_cons_of_mem _ member))
        (step init item)
      exact others.mono
        (fun made s ⟨holds, allGood, same⟩ =>
          ⟨holds, List.forall_mem_cons.mpr ⟨isGood, allGood⟩, same⟩)
        fun _ _ => id

end Ends

end Work

/-! ## Actions -/

open Work (Ends)
open Query (Yields)

variable {α β : Type} {d : Disk} {limit : Option Path}

/-- The world has this disk and knows nothing but the truth about it. -/
structure World.Knows (d : Disk) (limit : Option Path) (w : World) : Prop where
  disk : w.disk = d
  faithful : w.manifests.Faithful d
  boundary : w.manifests.boundary = limit

namespace Action

/-- Every value of an action has a property, and the world knows as much truth as before. -/
def Gives (d : Disk) (limit : Option Path) (act : Action α) (holds : α → Prop) : Prop :=
  Ends (World.Knows d limit) act (fun a w => w.Knows d limit ∧ holds a)
    (fun _ => World.Knows d limit)

namespace Gives

variable {act : Action α} {f : α → Action β} {holds : α → Prop} {later : β → Prop}

theorem mono {weaker : α → Prop} (gives : Gives d limit act holds)
    (weaken : ∀ a, holds a → weaker a) : Gives d limit act weaker :=
  Ends.mono gives (fun a _ known => ⟨known.1, weaken a known.2⟩) fun _ _ => id

theorem pure {a : α} (there : holds a) : Gives d limit (Pure.pure a) holds :=
  Ends.pure fun _ knows => ⟨knows, there⟩

theorem throw (fault : Fault) : Gives d limit (MonadExcept.throw fault : Action α) holds :=
  fun _ knows => Work.ended_error.mpr knows

theorem bind (first : Gives d limit act holds) (next : ∀ a, holds a → Gives d limit (f a) later) :
    Gives d limit (act >>= f) later :=
  Ends.bind first fun a => Ends.given (next a)

theorem map {g : α → β} (gives : Gives d limit act fun a => later (g a)) :
    Gives d limit (g <$> act) later := by
  rw [map_eq_pure_bind]
  exact gives.bind fun a => .pure

theorem ofOutcome {outcome : Outcome α} (value : ∀ a, outcome = .ok a → holds a) :
    Gives d limit (Action.ofOutcome outcome) holds := by
  cases outcome with
  | ok a => exact .pure (value a rfl)
  | error fault => exact .throw fault

theorem query {q : Query α} (yields : Yields d limit q holds) :
    Gives d limit (Action.query q) holds := by
  rintro ⟨disk, manifests, journal⟩ ⟨rfl, faithful, boundary⟩
  unfold Action.query
  rw [Work.run_bind, Work.run_get]
  dsimp only
  have ended := yields faithful boundary
  generalize (q disk).run manifests = result at ended ⊢
  obtain ⟨outcome, known⟩ := result
  rw [Work.run_bind]
  exact ofOutcome ended.value _ ⟨rfl, ended.faithful, ended.boundary⟩

theorem task {t : Task α}
    (ends : Ends (· = d) t (fun a d' => d' = d ∧ holds a) (fun _ d' => d' = d)) :
    Gives d limit (Action.task t) holds := by
  rintro ⟨disk, manifests, journal⟩ ⟨rfl, faithful, boundary⟩
  unfold Action.task
  rw [Work.run_bind, Work.run_get]
  dsimp only
  have ended := ends disk rfl
  generalize t.run disk = result at ended ⊢
  obtain ⟨outcome, disk'⟩ := result
  rw [Work.run_bind]
  cases outcome with
  | ok a =>
      obtain ⟨rfl, there⟩ := ended.well a rfl
      exact Gives.pure there _ ⟨rfl, faithful, boundary⟩
  | error fault =>
      obtain rfl := ended.badly fault rfl
      exact Gives.throw fault _ ⟨rfl, faithful, boundary⟩

theorem note (level : Level) (message : String) :
    Gives d limit (Action.note level message) fun _ => True :=
  fun _ knows => Work.ended_ok.mpr ⟨⟨knows.disk, knows.faithful, knows.boundary⟩, trivial⟩

theorem tryCatch {handle : Fault → Action α} (first : Gives d limit act holds)
    (next : ∀ fault, Gives d limit (handle fault) holds) :
    Gives d limit (MonadExcept.tryCatch act handle) holds := by
  intro w knows
  have ended := first w knows
  rw [Work.run_tryCatch]
  generalize act.run w = result at ended ⊢
  obtain ⟨outcome, w'⟩ := result
  cases outcome with
  | ok a => exact ended
  | error fault => exact next fault w' (ended.badly fault rfl)

/-- Doing something for each of some items. -/
theorem forIn {ι : Type} (items : List ι) {g : ι → Action PUnit}
    (each : ∀ item, Gives d limit (g item) fun _ => True) :
    Gives d limit (ForIn.forIn items PUnit.unit fun item _ => do
      g item
      return ForInStep.yield PUnit.unit) fun _ => True := by
  induction items with
  | nil =>
      rw [List.forIn_nil]
      exact .pure trivial
  | cons item rest ih =>
      rw [List.forIn_cons]
      simp only [bind_assoc, pure_bind]
      exact (each item).bind fun _ _ => ih

end Gives

end Action

end FunctionArchive
