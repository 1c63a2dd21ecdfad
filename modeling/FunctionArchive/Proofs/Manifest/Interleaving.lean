import FunctionArchive.Proofs.Manifest.Knowledge
import Mathlib.Algebra.GroupWithZero.Nat
import Mathlib.Logic.Relation

/-!
# Loads and searches side by side

The loads and searches of a run share what it knows about manifests, and their steps may fall in
any order. A `Load` looks into the table of manifests, then into the table of absences, then reads,
then records; a `Search` waits for the load of one directory after the other. Steps that nothing
comes between do what `load` and `findIn` do (`Sharing.run_load`, `Sharing.run_findIn`).

Every step leaves less to be done (`Sharing.Work.ahead_lt`), and until everything has returned there
is a step to be taken (`Linked.work`).
-/

set_option autoImplicit false

namespace FunctionArchive.Manifests

/-! ## Steps -/

/-- How far a load has come. -/
inductive LoadStage
  | begun
  /-- No manifest is remembered. -/
  | notFound
  /-- Nor is it remembered that there is none. -/
  | unknown
  /-- This was read and is to be recorded. -/
  | fetched (read : Option Manifest)
  | done (result : Outcome (Option Manifest))

/-- A load of the manifest in a directory. -/
structure Load where
  directory : Path
  stage : LoadStage

namespace Load

/-- The path of the manifest. -/
def path (l : Load) : Path := l.directory.child Manifest.fileName

/-- The load and what is known after one step of it. -/
def step (d : Disk) (known : Manifests) (l : Load) : Load × Manifests :=
  match l.stage with
  | .begun =>
    match known.found? l.path with
    | some manifest => (⟨l.directory, .done (.ok (some manifest))⟩, known)
    | none => (⟨l.directory, .notFound⟩, known)
  | .notFound =>
    if known.absent.any (·.same l.path) then (⟨l.directory, .done (.ok none)⟩, known)
    else (⟨l.directory, .unknown⟩, known)
  | .unknown =>
    match fetch d l.path with
    | .ok read => (⟨l.directory, .fetched read⟩, known)
    | .error fault => (⟨l.directory, .done (.error fault)⟩, known)
  | .fetched read =>
    (⟨l.directory, .done (.ok (known.record l.path read).1)⟩, (known.record l.path read).2)
  | .done _ => (l, known)

/-- How many steps a load takes at most until it returns. -/
def ahead (l : Load) : Nat :=
  match l.stage with
  | .begun => 4
  | .notFound => 3
  | .unknown => 2
  | .fetched _ => 1
  | .done _ => 0

end Load

/-- How far a search has come. -/
inductive SearchStage
  /-- It waits for a load, and these directories are to be tried next. -/
  | waiting (load : Nat) (rest : List Path)
  | done (result : Outcome (Option Manifest))

/-- A search for the manifest at or above a directory. -/
structure Search where
  directory : Path
  stage : SearchStage

namespace Search

/-- The directories in which a search goes on after a load has returned, if it goes on. -/
def next? (limit : Option Path) (here : Path) (rest : List Path) :
    Outcome (Option Manifest) → Option (Path × List Path)
  | .ok none =>
    if limit.any (·.same here) then none
    else
      match rest with
      | [] => none
      | next :: others => some (next, others)
  | _ => none

/-- How much a search has still to do. -/
def ahead (f : Search) : Nat :=
  match f.stage with
  | .waiting _ rest => 5 * rest.length + 1
  | .done _ => 0

end Search

/-- What loads and searches share, and how far each of them has come. -/
structure Sharing where
  disk : Disk
  known : Manifests
  loads : List Load
  searches : List Search

namespace Sharing

/-- Nothing was asked for yet. -/
def start (d : Disk) (limit : Option Path) : Sharing := ⟨d, .empty limit, [], []⟩

/-- Somebody asks for something. -/
inductive Ask (s : Sharing) : Sharing → Prop
  | load (directory : Path) : Ask s { s with loads := s.loads ++ [⟨directory, .begun⟩] }
  | find (directory : Path) :
      Ask s { s with
        loads := s.loads ++ [⟨directory, .begun⟩]
        searches := s.searches ++ [⟨directory, .waiting s.loads.length directory.ancestors.tail⟩] }

/-- A load or a search takes a step. -/
inductive Work (s : Sharing) : Sharing → Prop
  | step {index : Nat} {l : Load} (there : s.loads[index]? = some l) (active : l.ahead ≠ 0) :
      Work s { s with
        known := (l.step s.disk s.known).2
        loads := s.loads.set index (l.step s.disk s.known).1 }
  | finish {index load : Nat} {directory here : Path} {rest : List Path}
      {result : Outcome (Option Manifest)}
      (waits : s.searches[index]? = some ⟨directory, .waiting load rest⟩)
      (returned : s.loads[load]? = some ⟨here, .done result⟩)
      (last : Search.next? s.known.boundary here rest result = none) :
      Work s { s with searches := s.searches.set index ⟨directory, .done result⟩ }
  | goOn {index load : Nat} {directory here next : Path} {rest others : List Path}
      {result : Outcome (Option Manifest)}
      (waits : s.searches[index]? = some ⟨directory, .waiting load rest⟩)
      (returned : s.loads[load]? = some ⟨here, .done result⟩)
      (further : Search.next? s.known.boundary here rest result = some (next, others)) :
      Work s { s with
        loads := s.loads ++ [⟨next, .begun⟩]
        searches := s.searches.set index ⟨directory, .waiting s.loads.length others⟩ }

/-- What can happen on a disk that does not change. -/
def Quiet (s s' : Sharing) : Prop := Ask s s' ∨ Work s s'

/-- What can happen, the disk included. -/
def Event (s s' : Sharing) : Prop := Quiet s s' ∨ ∃ d, s' = { s with disk := d }

/-- How much is still to be done until everything has returned. -/
def ahead (s : Sharing) : Nat := (s.loads.map Load.ahead).sum + (s.searches.map Search.ahead).sum

/-- Everything has returned. -/
def Settled (s : Sharing) : Prop := s.ahead = 0

/-- No path is asked for under two spellings. -/
def SpelledAlike (s : Sharing) : Prop :=
  ∀ l ∈ s.loads, ∀ l' ∈ s.loads, l.path.same l'.path = true → l.path = l'.path

end Sharing

/-! ## Alone -/

variable {d : Disk} {limit : Option Path} {s s' : Sharing} {l l' : Load} {here : Path}

/-- Steps of one load alone. -/
def Load.run (d : Disk) (l : Load) : Nat → Manifests → Load × Manifests
  | 0, known => (l, known)
  | bound + 1, known => (l.step d known).1.run d bound (l.step d known).2

/-- A load that nothing comes between does what `load` does. -/
theorem Load.run_uninterrupted (directory : Path) (d : Disk) (known : Manifests) :
    Load.run d ⟨directory, .begun⟩ 4 known =
      (⟨directory, .done (((load directory) d).run known).1⟩,
        (((load directory) d).run known).2) := by
  rw [run_load]
  unfold lookUp
  cases found : known.found? (directory.child Manifest.fileName) with
  | some manifest => simp only [Load.run, Load.step, Load.path, found]
  | none =>
      cases absent : known.absent.any (·.same (directory.child Manifest.fileName)) with
      | true => simp only [Load.run, Load.step, Load.path, found, absent, if_true]
      | false =>
          cases read : fetch d (directory.child Manifest.fileName) <;>
            simp only [Load.run, Load.step, Load.path, found, absent, read, Bool.false_eq_true,
              if_false]

/-! ## One step -/

@[simp] theorem Load.step_directory (d : Disk) (known : Manifests) (l : Load) :
    (l.step d known).1.directory = l.directory := by
  unfold Load.step
  split
  · split <;> rfl
  · split <;> rfl
  · split <;> rfl
  · rfl
  · rfl

@[simp] theorem Load.step_path (d : Disk) (known : Manifests) (l : Load) :
    (l.step d known).1.path = l.path := by
  rw [Load.path, Load.step_directory, Load.path]

/-- Loads go on and new ones come; what has returned stays. -/
def Continues (loads loads' : List Load) : Prop :=
  ∀ (index : Nat) (l : Load), loads[index]? = some l →
    ∃ l', loads'[index]? = some l' ∧ l'.directory = l.directory ∧
      ∀ result, l.stage = .done result → l' = l

theorem continues_append (loads more : List Load) : Continues loads (loads ++ more) :=
  fun _ l there =>
    ⟨l, (List.getElem?_append_left (List.getElem?_eq_some_iff.mp there).1).trans there,
    rfl, fun _ _ => rfl⟩

theorem continues_set {loads : List Load} {index : Nat} (there : loads[index]? = some l)
    (active : l.ahead ≠ 0) (directory : l'.directory = l.directory) :
    Continues loads (loads.set index l') := by
  intro position other stands
  by_cases same : position = index
  · subst same
    cases there.symm.trans stands
    refine ⟨l', List.getElem?_set_self (List.getElem?_eq_some_iff.mp there).1, directory, ?_⟩
    intro result done
    exact absurd (by rw [Load.ahead, done]) active
  · exact ⟨other, by rw [List.getElem?_set_ne (Ne.symm same)]; exact stands, rfl, fun _ _ => rfl⟩

/-- All that can change the loads and what is known in one event. -/
theorem Sharing.Event.cases_loads (event : s.Event s') :
    (∃ more, s'.loads = s.loads ++ more ∧ s'.known = s.known ∧
      ∀ l ∈ more, l.stage = .begun) ∨
    ∃ index l, s.loads[index]? = some l ∧ l.ahead ≠ 0 ∧
      s'.loads = s.loads.set index (l.step s.disk s.known).1 ∧
      s'.known = (l.step s.disk s.known).2 := by
  have nothing : ∃ more, s.loads = s.loads ++ more ∧ s.known = s.known ∧
      ∀ l ∈ more, l.stage = .begun := ⟨[], (List.append_nil _).symm, rfl, List.forall_mem_nil _⟩
  have begun (directory : Path) : ∃ more, s.loads ++ [⟨directory, .begun⟩] = s.loads ++ more ∧
      s.known = s.known ∧ ∀ l ∈ more, l.stage = .begun :=
    ⟨_, rfl, rfl, List.forall_mem_singleton.mpr rfl⟩
  rcases event with (asked | worked) | ⟨d, rfl⟩
  · cases asked with
    | load directory => exact .inl (begun directory)
    | find directory => exact .inl (begun directory)
  · cases worked with
    | step there active => exact .inr ⟨_, _, there, active, rfl, rfl⟩
    | finish waits returned last => exact .inl nothing
    | goOn waits returned further => exact .inl (begun _)
  · exact .inl nothing

theorem Sharing.Event.continues (event : s.Event s') : Continues s.loads s'.loads := by
  rcases event.cases_loads with ⟨more, loads, -, -⟩ | ⟨index, l, there, active, loads, -⟩
  · rw [loads]
    exact continues_append _ _
  · rw [loads]
    exact continues_set there active (Load.step_directory _ _ _)

/-! ## Everything returns -/

theorem sum_map_set {α : Type} (f : α → Nat) {items : List α} {index : Nat} {old : α} (new : α)
    (there : items[index]? = some old) :
    ((items.set index new).map f).sum + f old = (items.map f).sum + f new := by
  induction items generalizing index with
  | nil => cases there
  | cons first rest ih =>
      cases index with
      | zero =>
          cases there
          simp only [List.set_cons_zero, List.map_cons, List.sum_cons]
          omega
      | succ index =>
          have others := ih there
          simp only [List.set_cons_succ, List.map_cons, List.sum_cons]
          omega

theorem Load.ahead_step (d : Disk) (known : Manifests) (active : l.ahead ≠ 0) :
    (l.step d known).1.ahead < l.ahead := by
  unfold Load.step
  cases stage : l.stage with
  | begun =>
      dsimp only
      split <;> simp [Load.ahead, stage]
  | notFound =>
      dsimp only
      split <;> simp [Load.ahead, stage]
  | unknown =>
      dsimp only
      split <;> simp [Load.ahead, stage]
  | fetched read => simp [Load.ahead, stage]
  | done result => exact absurd (by rw [Load.ahead, stage]) active

theorem Search.next?_eq_some {next : Path} {rest others : List Path}
    {result : Outcome (Option Manifest)}
    (further : Search.next? limit here rest result = some (next, others)) :
    rest = next :: others := by
  unfold Search.next? at further
  split at further
  · split at further
    · cases further
    · split at further <;> cases further
      rfl
  · cases further

/-- Every step leaves less to be done. -/
theorem Sharing.Work.ahead_lt (worked : s.Work s') : s'.ahead < s.ahead := by
  cases worked with
  | @step index l there active =>
      have less := Load.ahead_step s.disk s.known active
      have sum := sum_map_set Load.ahead (l.step s.disk s.known).1 there
      unfold Sharing.ahead
      dsimp only
      omega
  | @finish index load directory here rest result waits returned last =>
      have sum := sum_map_set Search.ahead ⟨directory, .done result⟩ waits
      simp only [Search.ahead] at sum
      unfold Sharing.ahead
      dsimp only [Search.ahead]
      omega
  | @goOn index load directory here next rest others result waits returned further =>
      have sum := sum_map_set Search.ahead ⟨directory, .waiting s.loads.length others⟩ waits
      obtain rfl := Search.next?_eq_some further
      simp only [Search.ahead, List.length_cons] at sum
      unfold Sharing.ahead
      dsimp only [Search.ahead]
      simp only [List.map_append, List.sum_append, List.map_cons, List.map_nil, List.sum_cons,
        List.sum_nil, Load.ahead]
      omega

/-- Every search waits for a load that was begun. -/
def Linked (s : Sharing) : Prop :=
  ∀ f ∈ s.searches, ∀ load rest, f.stage = .waiting load rest → ∃ l, s.loads[load]? = some l

theorem Linked.event (linked : Linked s) (event : s.Event s') : Linked s' := by
  have stays (f : Search) (member : f ∈ s.searches) (load : Nat) (rest : List Path)
      (waits : f.stage = .waiting load rest) : ∃ l, s'.loads[load]? = some l := by
    obtain ⟨l, there⟩ := linked f member load rest waits
    obtain ⟨l', there', -⟩ := event.continues load l there
    exact ⟨l', there'⟩
  rcases event with (asked | worked) | ⟨d, rfl⟩
  · cases asked with
    | load directory => exact stays
    | find directory =>
        refine List.forall_mem_append.mpr ⟨stays, List.forall_mem_singleton.mpr ?_⟩
        rintro _ _ ⟨⟩
        exact ⟨_, List.getElem?_concat_length⟩
  · cases worked with
    | step there active => exact stays
    | finish waits returned last =>
        intro f member load rest waiting
        rcases List.mem_or_eq_of_mem_set member with old | rfl
        · exact stays f old load rest waiting
        · cases waiting
    | goOn waits returned further =>
        intro f member load rest waiting
        rcases List.mem_or_eq_of_mem_set member with old | rfl
        · exact stays f old load rest waiting
        · cases waiting
          exact ⟨_, List.getElem?_concat_length⟩
  · exact stays

/-- As long as something has not returned, something can go on. -/
theorem Linked.work (linked : Linked s) : s.Settled ∨ ∃ s', s.Work s' := by
  by_cases active : ∃ l ∈ s.loads, l.ahead ≠ 0
  · obtain ⟨l, member, isActive⟩ := active
    obtain ⟨index, there⟩ := List.mem_iff_getElem?.mp member
    exact .inr ⟨_, .step there isActive⟩
  have returned (l : Load) (member : l ∈ s.loads) : l.ahead = 0 :=
    Decidable.not_not.mp fun isActive => active ⟨l, member, isActive⟩
  by_cases waiting : ∃ f ∈ s.searches, f.ahead ≠ 0
  · obtain ⟨⟨directory, stage⟩, member, isWaiting⟩ := waiting
    cases stage with
    | done result => exact absurd rfl isWaiting
    | waiting load rest =>
        obtain ⟨index, waits⟩ := List.mem_iff_getElem?.mp member
        obtain ⟨⟨here, stage⟩, there⟩ := linked _ member load rest rfl
        have none := returned _ (List.mem_of_getElem? there)
        cases stage <;> cases none
        rename_i result
        cases further : Search.next? s.known.boundary here rest result with
        | none => exact .inr ⟨_, .finish waits there further⟩
        | some next => exact .inr ⟨_, .goOn waits there further⟩
  · left
    have idle (f : Search) (member : f ∈ s.searches) : f.ahead = 0 :=
      Decidable.not_not.mp fun isWaiting => waiting ⟨f, member, isWaiting⟩
    rw [Sharing.Settled, Sharing.ahead, List.map_eq_replicate_iff.mpr returned,
      List.map_eq_replicate_iff.mpr idle]
    simp

/-! ## Nothing between the steps -/

open Relation (ReflTransGen)

/-- Steps of one load with nothing between them. -/
theorem Sharing.run_steps {index : Nat} (bound : Nat) (there : s.loads[index]? = some l) :
    ∃ s', ReflTransGen Work s s' ∧ s'.disk = s.disk ∧ s'.searches = s.searches ∧
      s'.known = (l.run s.disk bound s.known).2 ∧
      s'.loads = s.loads.set index (l.run s.disk bound s.known).1 := by
  induction bound generalizing s l with
  | zero =>
      obtain ⟨inside, stands⟩ := List.getElem?_eq_some_iff.mp there
      exact ⟨s, .refl, rfl, rfl, rfl, by rw [Load.run, ← stands, List.set_getElem_self]⟩
  | succ bound ih =>
      by_cases active : l.ahead = 0
      · have idle : l.step s.disk s.known = (l, s.known) := by
          obtain ⟨directory, stage⟩ := l
          cases stage <;> cases active
          rfl
        simp only [Load.run, idle]
        exact ih there
      · have stepped := Work.step there active
        have here := List.getElem?_set_self (List.getElem?_eq_some_iff.mp there).1
          (a := (l.step s.disk s.known).1)
        obtain ⟨s', steps, disk, searches, known, loads⟩ := ih
          (s := { s with
            known := (l.step s.disk s.known).2
            loads := s.loads.set index (l.step s.disk s.known).1 }) here
        refine ⟨s', .head stepped steps, disk, searches, known, ?_⟩
        rw [loads, List.set_set]
        rfl

/-- A search asks for one directory after the other. -/
theorem run_findIn (here : Path) (rest : List Path) (d : Disk) (known : Manifests) :
    ((findIn (here :: rest)) d).run known =
      match ((load here) d).run known with
      | (result, known') =>
        match Search.next? known'.boundary here rest result with
        | some (next, others) => ((findIn (next :: others)) d).run known'
        | none => (result, known') := by
  rw [findIn, Query.run_bind]
  generalize ((load here) d).run known = loaded
  obtain ⟨result, known'⟩ := loaded
  rcases result with fault | (_ | manifest)
  · rfl
  · show (((get : Query Manifests) >>= fun known =>
      if known.boundary.any (·.same here) then pure none else findIn rest) d).run known' = _
    rw [Query.run_bind]
    show ((if known'.boundary.any (·.same here) then pure none else findIn rest : Query _) d).run
      known' = _
    unfold Search.next?
    dsimp only
    cases known'.boundary.any (·.same here) with
    | true => rfl
    | false => cases rest <;> rfl
  · rfl

/-- A load that nothing comes between does what `load` does. -/
theorem Sharing.run_load {index : Nat} (there : s.loads[index]? = some ⟨here, .begun⟩) :
    ∃ s', ReflTransGen Work s s' ∧ s'.disk = s.disk ∧ s'.searches = s.searches ∧
      s'.known = (((load here) s.disk).run s.known).2 ∧
      s'.loads = s.loads.set index ⟨here, .done (((load here) s.disk).run s.known).1⟩ := by
  have steps := run_steps 4 there
  rwa [Load.run_uninterrupted] at steps

/-- A search that nothing comes between does what `findIn` does. -/
theorem Sharing.run_findIn {s : Sharing} {index load : Nat} {origin here : Path} {rest : List Path}
    (waits : s.searches[index]? = some ⟨origin, .waiting load rest⟩)
    (there : s.loads[load]? = some ⟨here, .begun⟩) :
    ∃ s', ReflTransGen Work s s' ∧ s'.known = (((findIn (here :: rest)) s.disk).run s.known).2 ∧
      s'.searches = s.searches.set index
        ⟨origin, .done (((findIn (here :: rest)) s.disk).run s.known).1⟩ := by
  obtain ⟨s', steps, disk, searches, known, loads⟩ := run_load there
  rw [Manifests.run_findIn]
  generalize ((Manifests.load here) s.disk).run s.known = loaded at known loads
  obtain ⟨result, known'⟩ := loaded
  subst known
  have returned : s'.loads[load]? = some ⟨here, .done result⟩ := by
    rw [loads, List.getElem?_set_self (List.getElem?_eq_some_iff.mp there).1]
  rw [← searches] at waits
  dsimp only
  cases further : Search.next? s'.known.boundary here rest result with
  | none => exact ⟨_, steps.tail (.finish waits returned further), rfl, by rw [searches]⟩
  | some follow =>
      obtain ⟨next, others⟩ := follow
      have shorter := Search.next?_eq_some further
      have waits' := List.getElem?_set_self (List.getElem?_eq_some_iff.mp waits).1
        (a := (⟨origin, .waiting s'.loads.length others⟩ : Search))
      have there' : (s'.loads ++ [⟨next, .begun⟩])[s'.loads.length]? = some ⟨next, .begun⟩ :=
        List.getElem?_concat_length
      obtain ⟨s'', steps', known', searches'⟩ := run_findIn
        (s := { s' with
          loads := s'.loads ++ [⟨next, .begun⟩]
          searches := s'.searches.set index ⟨origin, .waiting s'.loads.length others⟩ })
        waits' there'
      rw [disk] at known' searches'
      refine ⟨s'', steps.trans (.head (.goOn waits returned further) steps'), known', ?_⟩
      rw [searches', List.set_set, searches]
termination_by rest.length
decreasing_by simp [shorter]

/-- A load that is asked for and that nothing comes between. -/
theorem Sharing.load_alone (s : Sharing) (directory : Path) :
    ∃ s', ReflTransGen Quiet s s' ∧ s'.disk = s.disk ∧
      s'.known = (((load directory) s.disk).run s.known).2 ∧
      s'.loads = s.loads ++ [⟨directory, .done (((load directory) s.disk).run s.known).1⟩] := by
  obtain ⟨s', steps, disk, -, known, loads⟩ := run_load
    (s := { s with loads := s.loads ++ [⟨directory, .begun⟩] }) List.getElem?_concat_length
  refine ⟨s', .head (.inl (.load directory)) ?_, disk, known, ?_⟩
  · exact ReflTransGen.mono (fun _ _ => Or.inr) _ _ steps
  · rw [loads, List.set_append_right _ _ (Nat.le_refl _), Nat.sub_self]
    rfl

end FunctionArchive.Manifests
