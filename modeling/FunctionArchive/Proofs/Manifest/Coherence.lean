import FunctionArchive.Proofs.Manifest.Interleaving
import FunctionArchive.Proofs.Path.Spelling
import Mathlib

/-!
# What interleaved loads return

Whatever happens to the disk meanwhile, the manifest that is recorded first for a path is the one
that every load of this path returns (`Kept`, `Governs`). On a disk that does not change, a load
returns what reading its path gives, under the spelling of a load of the same path, and a search
what searching without a memory gives (`Truthful`, `sharing_coherent`).

The whole of Mathlib is imported for the examples at the end: `cbv` evaluates them with equations of
library functions, such as `List.lookup`, that Mathlib declares.
-/

set_option autoImplicit false

namespace FunctionArchive.Manifests

open Query (SameOutcome)
open Relation (ReflTransGen)

variable {d : Disk} {limit : Option Path} {s s' : Sharing} {known : Manifests} {l l' : Load}
  {path path' here : Path} {m : Manifest}

/-! ## The first manifest stays -/

theorem found?_eq_of_same (alike : path.same path' = true) (known : Manifests) :
    known.found? path = known.found? path' := by
  unfold found?
  congr 2
  funext entry
  exact Bool.eq_iff_iff.mpr ⟨fun named => Path.same_trans named alike,
    fun named => Path.same_trans named (Path.same_symm alike)⟩

theorem found?_cons_of_same (alike : path.same path' = true) (known : Manifests) (m : Manifest) :
    ({ known with found := (path, m) :: known.found } : Manifests).found? path' = some m := by
  simp [found?, alike]

/-- What is recorded last is not found under another path. -/
theorem found?_cons_of_not_same (different : path.same path' = false) (known : Manifests)
    (m : Manifest) :
    ({ known with found := (path, m) :: known.found } : Manifests).found? path' =
      known.found? path' := by
  simp [found?, different]

/-- To record something forgets no manifest. -/
theorem found?_record (found : known.found? path = some m) (path' : Path) (read : Option Manifest) :
    (known.record path' read).2.found? path = some m := by
  cases read with
  | none => exact found
  | some manifest =>
      cases earlier : known.found? path' with
      | some first => simpa only [record, earlier] using found
      | none =>
          simp only [record, earlier]
          cases alike : path'.same path with
          | true =>
              rw [found?_eq_of_same alike, found] at earlier
              cases earlier
          | false => rw [found?_cons_of_not_same alike, found]

theorem found?_of_record {read : Option Manifest} (recorded : (known.record path read).1 = some m) :
    (known.record path read).2.found? path = some m := by
  cases read with
  | none => cases recorded
  | some manifest =>
      cases earlier : known.found? path with
      | some first =>
          simp only [record, earlier] at recorded ⊢
          exact recorded
      | none =>
          simp only [record, earlier] at recorded ⊢
          rw [found?_cons_of_same (Path.same_iff.mpr ⟨rfl, rfl⟩), recorded]

/-- A step of a load forgets no manifest. -/
theorem Load.found?_step (found : known.found? path = some m) (d : Disk) (l : Load) :
    (l.step d known).2.found? path = some m := by
  unfold Load.step
  split
  · split <;> exact found
  · split <;> exact found
  · split <;> exact found
  · exact found?_record found _ _
  · exact found

/-- A manifest that a load returns is the one that is remembered. -/
theorem Load.found?_of_step {d : Disk} (active : l.ahead ≠ 0)
    (done : (l.step d known).1.stage = .done (.ok (some m))) :
    (l.step d known).2.found? l.path = some m := by
  unfold Load.step at done ⊢
  split
  · next begun =>
    rw [begun] at done
    split
    · next manifest found =>
      simp only [found] at done
      cases done
      exact found
    · next missing =>
      simp only [missing] at done
      cases done
  · next notFound =>
    rw [notFound] at done
    dsimp only at done
    split at done <;> cases done
  · next unknown =>
    rw [unknown] at done
    dsimp only at done
    split at done <;> cases done
  · next read fetched =>
    rw [fetched] at done
    exact found?_of_record (Except.ok.inj (LoadStage.done.inj done))
  · next result returned => exact absurd (by rw [Load.ahead, returned]) active

/-- Every manifest that a load has returned is remembered. -/
def Kept (s : Sharing) : Prop :=
  ∀ l ∈ s.loads, ∀ m, l.stage = .done (.ok (some m)) → s.known.found? l.path = some m

theorem Kept.event (kept : Kept s) (event : s.Event s') : Kept s' := by
  intro l member m done
  rcases event.cases_loads with ⟨more, loads, same, new⟩ |
    ⟨index, active, there, isActive, loads, next⟩
  · rw [loads] at member
    rw [same]
    rcases List.mem_append.mp member with old | isNew
    · exact kept l old m done
    · cases (new l isNew).symm.trans done
  · rw [loads] at member
    rw [next]
    rcases List.mem_or_eq_of_mem_set member with old | rfl
    · exact Load.found?_step (kept l old m done) _ _
    · rw [Load.step_path]
      exact Load.found?_of_step isActive done

/-- From the load with number `first` on, loads of this path return this manifest. -/
structure Governs (first : Nat) (path : Path) (m : Manifest) (s : Sharing) : Prop where
  found : s.known.found? path = some m
  later : ∀ (index : Nat) (l : Load), first ≤ index → s.loads[index]? = some l →
    l.path.same path = true → l.stage = .begun ∨ l.stage = .done (.ok (some m))

theorem Governs.event {first : Nat} (governs : Governs first path m s) (event : s.Event s') :
    Governs first path m s' := by
  rcases event.cases_loads with ⟨more, loads, same, new⟩ |
    ⟨index, active, there, isActive, loads, next⟩
  · refine ⟨same ▸ governs.found, fun position l late stands alike => ?_⟩
    rw [loads, List.getElem?_append] at stands
    split at stands
    · exact governs.later position l late stands alike
    · exact .inl (new l (List.mem_of_getElem? stands))
  · refine ⟨next ▸ Load.found?_step governs.found _ _, fun position l late stands alike => ?_⟩
    rw [loads] at stands
    by_cases here : position = index
    · subst here
      rw [List.getElem?_set_self (List.getElem?_eq_some_iff.mp there).1] at stands
      cases stands
      rw [Load.step_path] at alike
      rcases governs.later position active late there alike with begun | done
      · right
        simp only [Load.step, begun, found?_eq_of_same alike, governs.found]
      · exact absurd (by rw [Load.ahead, done]) isActive
    · rw [List.getElem?_set_ne (Ne.symm here)] at stands
      exact governs.later position l late stands alike

/-! ## A disk that does not change -/

/-- What a search gives that remembers nothing. -/
def nearest (d : Disk) (limit : Option Path) : List Path → Outcome (Option Manifest)
  | [] => .ok none
  | here :: rest =>
    match fetch d (here.child Manifest.fileName) with
    | .ok none => if limit.any (·.same here) then .ok none else nearest d limit rest
    | result => result

/-- The first directory decides, unless the search goes on behind it. -/
theorem nearest_cons (d : Disk) (limit : Option Path) (here : Path) (rest : List Path) :
    nearest d limit (here :: rest) =
      match Search.next? limit here rest (fetch d (here.child Manifest.fileName)) with
      | some (next, others) => nearest d limit (next :: others)
      | none => fetch d (here.child Manifest.fileName) := by
  rw [nearest]
  unfold Search.next?
  split
  · next missing =>
    rw [missing]
    cases limit.any (·.same here) with
    | true => rfl
    | false => cases rest <;> rfl
  · next other =>
    generalize fetch d (here.child Manifest.fileName) = result at other
    rcases result with fault | (_ | manifest)
    · rfl
    · exact absurd rfl other
    · rfl

/-- The paths that loads ask for. -/
def Sharing.paths (s : Sharing) : List Path := s.loads.map Load.path

/-- What is known was read for loads of these paths. -/
structure Learnt (d : Disk) (paths : List Path) (known : Manifests) : Prop where
  found : ∀ entry ∈ known.found, entry.1 ∈ paths ∧ fetch d entry.1 = .ok (some entry.2)
  absent : ∀ path ∈ known.absent, path ∈ paths ∧ fetch d path = .ok none

/-- A result is what reading one of these paths gives, which may be another spelling of the path
unless it is a fault. -/
def Backed (d : Disk) (paths : List Path) (path : Path)
    (result : Outcome (Option Manifest)) : Prop :=
  ∃ path' ∈ paths, path'.same path = true ∧ result = fetch d path' ∧
    (path' = path ∨ ∃ answer, result = .ok answer)

/-- What reading a path gives is backed by the path itself. -/
theorem backed_fetch {paths : List Path} (member : path ∈ paths) :
    Backed d paths path (fetch d path) :=
  ⟨path, member, Path.same_iff.mpr ⟨rfl, rfl⟩, rfl, .inl rfl⟩

/-- What a load has found out is true. -/
def Load.Honest (d : Disk) (paths : List Path) (l : Load) : Prop :=
  match l.stage with
  | .fetched read => fetch d l.path = .ok read
  | .done result => Backed d paths l.path result
  | _ => True

variable {paths paths' : List Path}

theorem Learnt.mono (learnt : Learnt d paths known) (more : paths ⊆ paths') :
    Learnt d paths' known :=
  ⟨fun entry member => ⟨more (learnt.found entry member).1, (learnt.found entry member).2⟩,
    fun path member => ⟨more (learnt.absent path member).1, (learnt.absent path member).2⟩⟩

theorem Load.Honest.mono (honest : l.Honest d paths) (more : paths ⊆ paths') :
    l.Honest d paths' := by
  unfold Load.Honest at honest ⊢
  split
  · next read fetched =>
    rw [fetched] at honest
    exact honest
  · next result done =>
    rw [done] at honest
    obtain ⟨path', member, backed⟩ := honest
    exact ⟨path', more member, backed⟩
  · trivial

theorem Learnt.found? (learnt : Learnt d paths known) (found : known.found? path = some m) :
    Backed d paths path (.ok (some m)) := by
  obtain ⟨entry, first, rfl⟩ := Option.map_eq_some_iff.mp found
  obtain ⟨member, read⟩ := learnt.found entry (List.mem_of_find?_eq_some first)
  exact ⟨entry.1, member, by simpa using List.find?_some first, read.symm, .inr ⟨_, rfl⟩⟩

/-- A step of a load finds out what is true, and what it records is true. -/
theorem Load.step_honest (learnt : Learnt d paths known) (honest : l.Honest d paths)
    (member : l.path ∈ paths) :
    (l.step d known).1.Honest d paths ∧ Learnt d paths (l.step d known).2 ∧
      (l.step d known).2.boundary = known.boundary := by
  have backed := backed_fetch (d := d) member
  unfold Load.step
  split
  · split
    · next manifest found => exact ⟨learnt.found? found, learnt, rfl⟩
    · exact ⟨trivial, learnt, rfl⟩
  · split
    · next present =>
      obtain ⟨path', among, alike⟩ := List.any_eq_true.mp present
      obtain ⟨member', read⟩ := learnt.absent path' among
      exact ⟨⟨path', member', alike, read.symm, .inr ⟨_, rfl⟩⟩, learnt, rfl⟩
    · exact ⟨trivial, learnt, rfl⟩
  · split
    · next read fetched => exact ⟨fetched, learnt, rfl⟩
    · next fault fetched => exact ⟨fetched ▸ backed, learnt, rfl⟩
  · next read stage =>
    rw [Load.Honest, stage] at honest
    have fetched : fetch d l.path = .ok read := honest
    rw [fetched] at backed
    cases read with
    | none =>
        refine ⟨backed, ⟨learnt.found, ?_⟩, rfl⟩
        exact List.forall_mem_cons.mpr ⟨⟨member, fetched⟩, learnt.absent⟩
    | some manifest =>
        cases earlier : known.found? l.path with
        | some first =>
            simp only [record, earlier]
            exact ⟨learnt.found? earlier, learnt, trivial⟩
        | none =>
            simp only [record, earlier]
            refine ⟨backed, ⟨?_, learnt.absent⟩, trivial⟩
            exact List.forall_mem_cons.mpr ⟨⟨member, fetched⟩, learnt.found⟩
  · exact ⟨honest, learnt, rfl⟩

/-- What a search has found out is true: what is left to be tried gives what all directories
give. -/
def Search.Honest (d : Disk) (limit : Option Path) (loads : List Load) (f : Search) : Prop :=
  match f.stage with
  | .waiting load rest =>
    ∃ l, loads[load]? = some l ∧
      nearest d limit (l.directory :: rest) = nearest d limit f.directory.ancestors
  | .done result =>
    ∃ l ∈ loads, l.stage = .done result ∧ fetch d l.path = nearest d limit f.directory.ancestors

theorem Search.Honest.mono {loads loads' : List Load} {f : Search}
    (honest : f.Honest d limit loads) (continues : Continues loads loads') :
    f.Honest d limit loads' := by
  unfold Search.Honest at honest ⊢
  split
  · next load rest waiting =>
    rw [waiting] at honest
    obtain ⟨l, there, left⟩ := honest
    obtain ⟨l', there', directory, -⟩ := continues load l there
    exact ⟨l', there', by rw [directory, left]⟩
  · next result done =>
    rw [done] at honest
    obtain ⟨l, member, returned, given⟩ := honest
    obtain ⟨index, there⟩ := List.mem_iff_getElem?.mp member
    obtain ⟨l', there', -, same⟩ := continues index l there
    cases same result returned
    exact ⟨l, List.mem_of_getElem? there', returned, given⟩

/-- Everything that was found out on this disk is true. -/
structure Truthful (d : Disk) (limit : Option Path) (s : Sharing) : Prop where
  disk : s.disk = d
  boundary : s.known.boundary = limit
  learnt : Learnt d s.paths s.known
  loads : ∀ l ∈ s.loads, l.Honest d s.paths
  searches : ∀ f ∈ s.searches, f.Honest d limit s.loads

theorem Load.isManifestPath (l : Load) : IsManifestPath l.path := ⟨l.directory, rfl⟩

theorem Sharing.isManifestPath (member : path ∈ s.paths) : IsManifestPath path := by
  obtain ⟨l, -, rfl⟩ := List.mem_map.mp member
  exact l.isManifestPath

/-- A search goes on after a load as it would after reading the path. -/
theorem Search.next?_eq {result : Outcome (Option Manifest)} {rest : List Path}
    (backed : Backed d s.paths l.path result) :
    Search.next? limit here rest result = Search.next? limit here rest (fetch d l.path) := by
  obtain ⟨path', member, alike, rfl, -⟩ := backed
  have manifest' := Sharing.isManifestPath member
  cases read : fetch d path' with
  | error fault =>
      cases read' : fetch d l.path with
      | error fault' => rfl
      | ok answer =>
          obtain ⟨_, again, -⟩ := fetch_same (Path.same_symm alike) l.isManifestPath manifest' read'
          cases read.symm.trans again
  | ok answer =>
      obtain ⟨answer', read', related⟩ := fetch_same alike manifest' l.isManifestPath read
      rw [read']
      cases related <;> rfl

theorem Truthful.begin (truthful : Truthful d limit s) (directory : Path) :
    Truthful d limit { s with loads := s.loads ++ [⟨directory, .begun⟩] } := by
  have more : s.paths ⊆ Sharing.paths { s with loads := s.loads ++ [⟨directory, .begun⟩] } := by
    rw [Sharing.paths, Sharing.paths, List.map_append]
    exact List.subset_append_left _ _
  refine ⟨truthful.disk, truthful.boundary, truthful.learnt.mono more, ?_, ?_⟩
  · refine List.forall_mem_append.mpr ⟨fun l member => (truthful.loads l member).mono more, ?_⟩
    exact List.forall_mem_singleton.mpr trivial
  · exact fun f member => (truthful.searches f member).mono (continues_append _ _)

theorem Truthful.ask (truthful : Truthful d limit s) (asked : s.Ask s') : Truthful d limit s' := by
  cases asked with
  | load directory => exact truthful.begin directory
  | find directory =>
      obtain ⟨disk, boundary, learnt, loads, searches⟩ := truthful.begin directory
      refine ⟨disk, boundary, learnt, loads, List.forall_mem_append.mpr ⟨searches, ?_⟩⟩
      exact List.forall_mem_singleton.mpr ⟨⟨directory, .begun⟩, List.getElem?_concat_length, rfl⟩

theorem Truthful.work (truthful : Truthful d limit s) (worked : s.Work s') :
    Truthful d limit s' := by
  have left {index load : Nat} {directory here : Path} {rest : List Path}
      {result : Outcome (Option Manifest)}
      (waits : s.searches[index]? = some ⟨directory, .waiting load rest⟩)
      (returned : s.loads[load]? = some ⟨here, .done result⟩) :
      nearest d limit (here :: rest) = nearest d limit directory.ancestors ∧
        Search.next? s.known.boundary here rest result =
          Search.next? limit here rest (fetch d (here.child Manifest.fileName)) := by
    obtain ⟨l, there, left⟩ := truthful.searches _ (List.mem_of_getElem? waits)
    cases there.symm.trans returned
    have backed : Backed d s.paths _ result := truthful.loads _ (List.mem_of_getElem? returned)
    exact ⟨left, truthful.boundary ▸ Search.next?_eq backed⟩
  cases worked with
  | @step index l there active =>
      have member := List.mem_of_getElem? there
      obtain ⟨honest, learnt, boundary⟩ :=
        Load.step_honest truthful.learnt (truthful.loads l member)
        (List.mem_map_of_mem member)
      have continues := continues_set there active (Load.step_directory d s.known l)
      rw [truthful.disk]
      have paths : (s.loads.set index (l.step d s.known).1).map Load.path = s.paths := by
        have path : (s.loads.map Load.path)[index]? = some l.path := by
          rw [List.getElem?_map, there, Option.map_some]
        obtain ⟨inside, stands⟩ := List.getElem?_eq_some_iff.mp path
        rw [List.map_set, Load.step_path, ← stands, List.set_getElem_self, Sharing.paths]
      refine ⟨rfl, boundary.trans truthful.boundary, ?_, ?_, ?_⟩
      · show Learnt d (List.map _ _) _
        rwa [paths]
      · show ∀ l' ∈ s.loads.set index _, l'.Honest d (List.map _ _)
        rw [paths]
        intro l' member'
        rcases List.mem_or_eq_of_mem_set member' with old | rfl
        · exact truthful.loads l' old
        · exact honest
      · exact fun f member' => (truthful.searches f member').mono continues
  | @finish index load directory here rest result waits returned last =>
      obtain ⟨given, same⟩ := left waits returned
      rw [nearest_cons, ← same, last] at given
      refine ⟨truthful.disk, truthful.boundary, truthful.learnt, truthful.loads, ?_⟩
      intro f member
      rcases List.mem_or_eq_of_mem_set member with old | rfl
      · exact truthful.searches f old
      · exact ⟨_, List.mem_of_getElem? returned, rfl, given⟩
  | @goOn index load directory here next rest others result waits returned further =>
      obtain ⟨given, same⟩ := left waits returned
      rw [nearest_cons, ← same, further] at given
      obtain ⟨disk, boundary, learnt, loads, searches⟩ := truthful.begin next
      refine ⟨disk, boundary, learnt, loads, fun f member => ?_⟩
      rcases List.mem_or_eq_of_mem_set member with old | rfl
      · exact searches f old
      · exact ⟨⟨next, .begun⟩, List.getElem?_concat_length, given⟩

/-! ## Coherence -/

/-- The same fault or absence, or the same manifest in a directory that may be spelled in another
way. -/
def Respelled (result result' : Outcome (Option Manifest)) : Prop :=
  SameOutcome (Option.Rel Manifest.Respells) result result'

theorem Backed.respelled {result : Outcome (Option Manifest)}
    (backed : Backed d s.paths l.path result) : Respelled result (fetch d l.path) := by
  obtain ⟨path', member, alike, rfl, origin⟩ := backed
  obtain ⟨l', -, rfl⟩ := List.mem_map.mp member
  cases read : fetch d l'.path with
  | error fault =>
      rcases origin with same | ⟨answer, answered⟩
      · rw [← same, read]
        exact .error fault
      · cases read.symm.trans answered
  | ok answer =>
      obtain ⟨answer', read', related⟩ := fetch_same alike l'.isManifestPath l.isManifestPath read
      rw [read']
      exact .ok related

theorem Backed.eq {result : Outcome (Option Manifest)} (member : l ∈ s.loads)
    (backed : Backed d s.paths l.path result) (spelledAlike : s.SpelledAlike) :
    result = fetch d l.path := by
  obtain ⟨path', among, alike, rfl, -⟩ := backed
  obtain ⟨l', member', rfl⟩ := List.mem_map.mp among
  rw [spelledAlike l' member' l member alike]

theorem kept_start (d : Disk) (limit : Option Path) : Kept (.start d limit) :=
  fun _ member => absurd member List.not_mem_nil

theorem linked_start (d : Disk) (limit : Option Path) : Linked (.start d limit) :=
  fun _ member => absurd member List.not_mem_nil

theorem truthful_start (d : Disk) (limit : Option Path) : Truthful d limit (.start d limit) where
  disk := rfl
  boundary := rfl
  learnt :=
    ⟨fun _ member => absurd member List.not_mem_nil, fun _ member => absurd member List.not_mem_nil⟩
  loads := fun _ member => absurd member List.not_mem_nil
  searches := fun _ member => absurd member List.not_mem_nil

theorem Truthful.quiet (truthful : Truthful d limit s) (quiet : s.Quiet s') :
    Truthful d limit s' := by
  rcases quiet with asked | worked
  · exact truthful.ask asked
  · exact truthful.work worked

/-! ### Whole runs -/

theorem Kept.run (kept : Kept s) (run : ReflTransGen Sharing.Event s s') : Kept s' := by
  induction run with
  | refl => exact kept
  | tail _ event ih => exact ih.event event

theorem Linked.run (linked : Linked s) (run : ReflTransGen Sharing.Event s s') : Linked s' := by
  induction run with
  | refl => exact linked
  | tail _ event ih => exact ih.event event

theorem Governs.run {first : Nat} (governs : Governs first path m s)
    (run : ReflTransGen Sharing.Event s s') : Governs first path m s' := by
  induction run with
  | refl => exact governs
  | tail _ event ih => exact ih.event event

theorem Truthful.run (truthful : Truthful d limit s) (run : ReflTransGen Sharing.Quiet s s') :
    Truthful d limit s' := by
  induction run with
  | refl => exact truthful
  | tail _ quiet ih => exact ih.quiet quiet

/-- A manifest that a load has returned governs all later loads of its path. -/
theorem Kept.governs (kept : Kept s) (member : l ∈ s.loads)
    (done : l.stage = .done (.ok (some m))) : Governs s.loads.length l.path m s := by
  refine ⟨kept l member m done, fun index l' late there => ?_⟩
  exact absurd (List.getElem?_eq_some_iff.mp there).1 (Nat.not_lt.mpr late)

/-- Loads of one path that return a manifest return the same one. -/
theorem Kept.eq (kept : Kept s) (member : l ∈ s.loads) (member' : l' ∈ s.loads)
    (alike : l.path.same l'.path = true) {m m' : Manifest} (done : l.stage = .done (.ok (some m)))
    (done' : l'.stage = .done (.ok (some m'))) : m = m' := by
  have found := kept l member m done
  rw [found?_eq_of_same alike, kept l' member' m' done'] at found
  exact (Option.some.inj found).symm

/-- **What the loads and searches of a run return, in whatever order their steps fall.** Even if the
disk changes, the loads of one path that return a manifest return the same one, and so does every
load of this path that is begun after one of them has returned. If the disk does not change, each
load returns what reading its path gives and each search what searching without a memory gives, but
for the spelling of the manifest's directory, and exactly that if no path is asked for under two
spellings. Every step leaves less to be done, and there is a step to be taken until everything has
returned. -/
theorem sharing_coherent {d : Disk} {limit : Option Path} {s : Sharing}
    (reached : ReflTransGen Sharing.Event (.start d limit) s) :
    (∀ l ∈ s.loads, ∀ l' ∈ s.loads, l.path.same l'.path = true → ∀ m m',
        l.stage = .done (.ok (some m)) → l'.stage = .done (.ok (some m')) → m = m') ∧
      (∀ s', ReflTransGen Sharing.Event s s' → ∀ l ∈ s.loads, ∀ m,
        l.stage = .done (.ok (some m)) → ∀ l' ∈ s'.loads.drop s.loads.length,
          l'.path.same l.path = true → ∀ result, l'.stage = .done result → result = .ok (some m)) ∧
      (ReflTransGen Sharing.Quiet (.start d limit) s →
        (∀ l ∈ s.loads, ∀ result, l.stage = .done result →
          Respelled result (fetch d l.path) ∧ (s.SpelledAlike → result = fetch d l.path)) ∧
        (∀ f ∈ s.searches, ∀ result, f.stage = .done result →
          Respelled result (nearest d limit f.directory.ancestors) ∧
            (s.SpelledAlike → result = nearest d limit f.directory.ancestors))) ∧
      (∀ s', s.Work s' → s'.ahead < s.ahead) ∧ (s.Settled ∨ ∃ s', s.Work s') := by
  have kept := (kept_start d limit).run reached
  have linked := (linked_start d limit).run reached
  refine ⟨fun l member l' member' alike m m' => kept.eq member member' alike, ?_, fun quiet => ?_,
    fun s' => Sharing.Work.ahead_lt, linked.work⟩
  · intro s' further l member m done l' late alike result returned
    have governs := (kept.governs member done).run further
    obtain ⟨index, there⟩ := List.mem_iff_getElem?.mp late
    rw [List.getElem?_drop] at there
    rcases governs.later _ l' (Nat.le_add_right _ _) there alike with begun | same
    · cases begun.symm.trans returned
    · exact LoadStage.done.inj (returned.symm.trans same)
  · have truthful := (truthful_start d limit).run quiet
    have loads (l : Load) (member : l ∈ s.loads) (result : Outcome (Option Manifest))
        (done : l.stage = .done result) : Backed d s.paths l.path result := by
      have honest := truthful.loads l member
      rwa [Load.Honest, done] at honest
    refine ⟨fun l member result done => ?_, fun f member result done => ?_⟩
    · have backed := loads l member result done
      exact ⟨backed.respelled, backed.eq member⟩
    · have honest := truthful.searches f member
      rw [Search.Honest, done] at honest
      obtain ⟨l, among, returned, given⟩ := honest
      have backed := loads l among result returned
      rw [← given]
      exact ⟨backed.respelled, backed.eq among⟩

namespace Example

/-- A package with an empty manifest. -/
def package : Disk :=
  ⟨.directory [("q", .directory [("package.json", .file ⟨[0x7b, 0x7d], 0o644, 0⟩)])], .root, 0⟩

/-- Two spellings of the directory of the package. -/
def dotted : Path := .ofNames [".", "q"]

@[inherit_doc dotted]
def plain : Path := .ofNames ["q"]

end Example

open Example in
/-- A load returns the manifest under the spelling of an earlier load. -/
theorem sharing_respelled : ∃ s, ReflTransGen Sharing.Quiet (.start package none) s ∧
    ∃ l ∈ s.loads, ∃ result, l.stage = .done result ∧ result ≠ fetch package l.path := by
  obtain ⟨s, first, disk, known, loads⟩ := (Sharing.start package none).load_alone dotted
  obtain ⟨s', second, -, -, loads'⟩ := s.load_alone plain
  refine ⟨s', first.trans second, _, loads' ▸ List.mem_concat_self, _, rfl, ?_⟩
  have earlier : ((((load plain) s.disk).run s.known).1.map (·.map Manifest.directory)) =
      .ok (some dotted) := by
    rw [disk, known]
    cbv
  intro same
  rw [same] at earlier
  have alone : ((fetch package (plain.child Manifest.fileName)).map (·.map Manifest.directory)) =
      .ok (some plain) := by cbv
  have spelled : some dotted = some plain := Except.ok.inj (earlier.symm.trans alone)
  exact absurd spelled (by decide)

open Example in
/-- A manifest that was loaded is returned by a load after the file is gone. -/
theorem sharing_coherent_removedManifest : ∃ s s' m,
    ReflTransGen Sharing.Event (.start package none) s ∧ ReflTransGen Sharing.Event s s' ∧
      fetch s'.disk (plain.child Manifest.fileName) = .ok none ∧
      ⟨plain, .done (.ok (some m))⟩ ∈ s'.loads.drop s.loads.length := by
  let removed : Disk := ⟨.directory [], .root, 0⟩
  obtain ⟨s, first, -, -, loads⟩ := (Sharing.start package none).load_alone plain
  obtain ⟨s', second, disk, -, loads'⟩ := Sharing.load_alone { s with disk := removed } plain
  have events {s s' : Sharing} (steps : ReflTransGen Sharing.Quiet s s') :
      ReflTransGen Sharing.Event s s' := ReflTransGen.mono (fun _ _ => Or.inl) _ _ steps
  have further : ReflTransGen Sharing.Event s s' := .head (.inr ⟨removed, rfl⟩) (events second)
  obtain ⟨m, found⟩ : ∃ m, (((load plain) package).run (.empty none)).1 = .ok (some m) :=
    ⟨_, by cbv⟩
  have once : ⟨plain, .done (.ok (some m))⟩ ∈ s.loads := by
    rw [loads, ← found]
    exact List.mem_concat_self
  have again : ⟨plain, .done (((load plain) removed).run s.known).1⟩ ∈
      s'.loads.drop s.loads.length := by
    rw [loads', List.drop_left]
    exact List.mem_singleton_self _
  have same := (sharing_coherent (events first)).2.1 s' further _ once m rfl _ again
    (Path.same_iff.mpr ⟨rfl, rfl⟩) _ rfl
  exact ⟨s, s', m, events first, further, by rw [disk]; cbv, same ▸ again⟩

end FunctionArchive.Manifests
