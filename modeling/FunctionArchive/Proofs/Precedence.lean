import FunctionArchive.CommandLine.Program
import FunctionArchive.Proofs.Disk.Listing
import Mathlib.Data.List.Induction
import Mathlib.Data.List.Nodup

/-!
# Which option counts

The options of a function are laid over one another in layers. A list of the result begins with the
list of the lower layer as it is, repetitions included, and goes on with what the upper layer adds:
every entry that is new, once, in the order in which the upper layer names them first
(`FunctionConfig.Adds`). An entry of the topmost of three layers is added if neither of the others
has it, whichever two of them are joined first (`FunctionConfig.accumulate_assoc`). So layers may be
joined in any grouping, a layer that says nothing changes nothing, and neither does a layer laid
over itself (`FunctionConfig.mergedWith_layers`).

An option of a function can be said in three places: on the command line, at the top of a
configuration file, and in an override of that file whose pattern matches the name of the function.
The command line is laid over the top of the file, and the override over both. So a flag counts
more than the top of the file, and the modules it names are never lost, but an override that pins
a strategy counts more than the flag that pins one for all functions.

The override of a name is looked up here in the options as they are asked for, where a pattern is
still a text (`Options.overrideOf?`); sound settings find the same one
(`Options.configOf_of_build`).
-/

set_option autoImplicit false

namespace FunctionArchive

namespace FunctionConfig

variable {base extra : List String} {item : String}

/-! ## Accumulating -/

/-- Accumulating loses nothing, neither below nor on top, and adds nothing else. -/
@[simp]
theorem mem_accumulate {base extra : List String} {item : String} :
    item ∈ accumulate base extra ↔ item ∈ base ∨ item ∈ extra := by
  unfold accumulate
  induction extra generalizing base with
  | nil => simp
  | cons first rest ih =>
      rw [List.foldl_cons, ih]
      by_cases there : first ∈ base
      · -- An entry that is there already is not added once more.
        rw [if_pos (List.contains_iff_mem.mpr there), List.mem_cons]
        constructor
        · intro among
          exact among.imp_right .inr
        · rintro (among | rfl | among)
          · exact .inl among
          · exact .inl there
          · exact .inr among
      · rw [if_neg (fun contained => there (List.contains_iff_mem.mp contained)), List.mem_append,
          List.mem_singleton, List.mem_cons, or_assoc]

theorem accumulate_nil (base : List String) : accumulate base [] = base := rfl

/-- The last entry of the upper layer is added if it is in neither layer before. -/
theorem accumulate_concat (base extra : List String) (item : String) :
    accumulate base (extra ++ [item]) =
      if item ∈ base ∨ item ∈ extra then accumulate base extra
      else accumulate base extra ++ [item] := by
  have last : accumulate base (extra ++ [item]) =
      if (accumulate base extra).contains item then accumulate base extra
      else accumulate base extra ++ [item] := by
    simp [accumulate]
  simp only [last, List.contains_iff_mem, mem_accumulate]

theorem accumulate_assoc (base extra top : List String) :
    accumulate (accumulate base extra) top = accumulate base (accumulate extra top) := by
  induction top using List.reverseRecOn with
  | nil => rfl
  | append_singleton top item ih =>
      rw [accumulate_concat, accumulate_concat extra, ih]
      by_cases upper : item ∈ extra ∨ item ∈ top
      · -- The two upper layers have the entry, so it is added to neither side.
        have known : item ∈ accumulate base extra ∨ item ∈ top :=
          upper.imp_left fun among => mem_accumulate.mpr (.inr among)
        rw [if_pos known, if_pos upper]
      · have unknown : item ∉ accumulate extra top := fun among => upper (mem_accumulate.mp among)
        rw [if_neg upper, accumulate_concat]
        simp only [mem_accumulate, unknown, or_false, or_assoc, upper]

/-- Entries that are there already change nothing. -/
theorem accumulate_eq_self (known : extra ⊆ base) : accumulate base extra = base := by
  induction extra using List.reverseRecOn with
  | nil => rfl
  | append_singleton extra item ih =>
      obtain ⟨before, last⟩ := List.append_subset.mp known
      rw [accumulate_concat, if_pos (.inl (last (List.mem_singleton_self item))), ih before]

/-! ## What a layer adds -/

/-- The entries that an upper list adds to a lower one: those that the lower one lacks, each of them
once, in the order in which the upper one names them first. -/
structure Adds (base extra new : List String) : Prop where
  members : ∀ item, item ∈ new ↔ item ∈ extra ∧ item ∉ base
  once : new.Nodup
  ordered : new.Pairwise fun first second => extra.idxOf first < extra.idxOf second

theorem adds_nil (base : List String) : Adds base [] [] :=
  ⟨by simp, List.nodup_nil, .nil⟩

/-- An entry that one of the lists has already is not added. -/
theorem Adds.known {new : List String} (adds : Adds base extra new)
    (known : item ∈ base ∨ item ∈ extra) : Adds base (extra ++ [item]) new := by
  refine ⟨fun other => ?_, adds.once, ?_⟩
  · rw [adds.members, List.mem_append, List.mem_singleton]
    constructor
    · rintro ⟨among, unknown⟩
      exact ⟨.inl among, unknown⟩
    · rintro ⟨among | rfl, unknown⟩
      · exact ⟨among, unknown⟩
      · exact ⟨known.resolve_left unknown, unknown⟩
  · refine adds.ordered.imp_of_mem fun first second before => ?_
    rwa [List.idxOf_append_of_mem ((adds.members _).mp first).1,
      List.idxOf_append_of_mem ((adds.members _).mp second).1]

/-- An entry that neither list has is added at the end. -/
theorem Adds.unknown {new : List String} (adds : Adds base extra new)
    (lower : item ∉ base) (upper : item ∉ extra) : Adds base (extra ++ [item]) (new ++ [item]) := by
  have fresh : item ∉ new := fun among => upper ((adds.members item).mp among).1
  refine ⟨fun other => ?_, ?_, ?_⟩
  · rw [List.mem_append, List.mem_append, List.mem_singleton, adds.members]
    constructor
    · rintro (⟨among, unknown⟩ | rfl)
      · exact ⟨.inl among, unknown⟩
      · exact ⟨.inr rfl, lower⟩
    · rintro ⟨among | rfl, unknown⟩
      · exact .inl ⟨among, unknown⟩
      · exact .inr rfl
  · exact List.nodup_append.mpr ⟨adds.once, List.nodup_singleton item, by
      rintro other among _ last rfl
      exact fresh (List.mem_singleton.mp last ▸ among)⟩
  · have place (other : String) (among : other ∈ new) :
        (extra ++ [item]).idxOf other = extra.idxOf other ∧ extra.idxOf other < extra.length := by
      have inside := ((adds.members other).mp among).1
      exact ⟨List.idxOf_append_of_mem inside, List.idxOf_lt_length_iff.mpr inside⟩
    have end' : (extra ++ [item]).idxOf item = extra.length := by
      rw [List.idxOf_append_of_notMem upper]
      simp
    refine List.pairwise_append.mpr ⟨?_, List.pairwise_singleton _ _, ?_⟩
    · refine adds.ordered.imp_of_mem fun first second before => ?_
      rwa [(place _ first).1, (place _ second).1]
    · intro other among last isLast
      rw [List.mem_singleton.mp isLast, (place other among).1, end']
      exact (place other among).2

theorem exists_adds (base extra : List String) :
    ∃ new, accumulate base extra = base ++ new ∧ Adds base extra new := by
  induction extra using List.reverseRecOn with
  | nil => exact ⟨[], by rw [accumulate_nil, List.append_nil], adds_nil base⟩
  | append_singleton extra item ih =>
      obtain ⟨new, whole, adds⟩ := ih
      rw [accumulate_concat, whole]
      by_cases known : item ∈ base ∨ item ∈ extra
      · exact ⟨new, if_pos known, adds.known known⟩
      · obtain ⟨lower, upper⟩ := not_or.mp known
        exact ⟨new ++ [item], by rw [if_neg known, List.append_assoc], adds.unknown lower upper⟩

/-! ## Layers -/

theorem mergedWith_assoc (a b c : FunctionConfig) :
    (a.mergedWith b).mergedWith c = a.mergedWith (b.mergedWith c) := by
  have strategies : (c.strategy <|> b.strategy <|> a.strategy) =
      ((c.strategy <|> b.strategy) <|> a.strategy) := by
    cases c.strategy <;> rfl
  simp only [mergedWith, strategies, accumulate_assoc]

/-- Of the strategies that some layers pin, the last one holds. -/
theorem strategy_foldl (a : FunctionConfig) (layers : List FunctionConfig) :
    (layers.foldl mergedWith a).strategy = ((a :: layers).filterMap (·.strategy)).getLast? := by
  induction layers using List.reverseRecOn with
  | nil => cases pinned : a.strategy <;> simp [pinned]
  | append_singleton layers top ih =>
      have above : (top.strategy <|> (layers.foldl mergedWith a).strategy) =
          ((a :: (layers ++ [top])).filterMap (·.strategy)).getLast? := by
        rw [ih, ← List.cons_append, List.filterMap_append]
        cases pinned : top.strategy <;> simp [pinned]
      rw [List.foldl_append, List.foldl_cons, List.foldl_nil]
      exact above

/-- **Layering options is associative.** Layers may be joined in any grouping; a layer that says
nothing changes nothing, nor does a layer laid over itself; of several strategies the last one that
is pinned holds; and a list of the result is the list below with what the layer on top adds. -/
theorem mergedWith_layers (a b c : FunctionConfig) :
    (a.mergedWith b).mergedWith c = a.mergedWith (b.mergedWith c) ∧
      a.mergedWith {} = a ∧ a.mergedWith a = a ∧
      (∀ layers : List FunctionConfig, (layers.foldl mergedWith a).strategy =
        ((a :: layers).filterMap (·.strategy)).getLast?) ∧
      ∀ list ∈ [externalModules, ignoredModules, excludeFiles],
        ∃ new, list (a.mergedWith b) = list a ++ new ∧ Adds (list a) (list b) new := by
  refine ⟨mergedWith_assoc a b c, ?_, ?_, strategy_foldl a, ?_⟩
  · obtain ⟨strategy, external, ignored, excluded⟩ := a
    cases strategy <;> rfl
  · have same (list : List String) : accumulate list list = list :=
      accumulate_eq_self (List.Subset.refl list)
    have pinned : (a.strategy <|> a.strategy) = a.strategy := by cases a.strategy <;> rfl
    simp only [mergedWith, same, pinned]
  · simp only [List.forall_mem_cons, List.not_mem_nil, false_imp_iff, implies_true, and_true]
    exact ⟨exists_adds _ _, exists_adds _ _, exists_adds _ _⟩

example : accumulate ["p", "p"] ["q", "p", "r", "q"] = ["p", "p", "q", "r"] := by decide

/-! ## Laying one over the other -/

/-- Accumulating a list of an override that may be missing, where nothing is listed without one. -/
theorem mem_accumulate_getD (list : FunctionConfig → List String) (blank : list {} = [])
    {base : List String} {override : Option FunctionConfig} {item : String} :
    item ∈ accumulate base (list (override.getD {})) ↔
      item ∈ base ∨ ∃ config, override = some config ∧ item ∈ list config := by
  rw [mem_accumulate]
  cases override with
  | none => simp [blank]
  | some config => simp

end FunctionConfig

/-! ## The override of a name -/

/-- A text describes a name: it can be read as a pattern, and the pattern matches. -/
def Glob.describes (text name : String) : Bool :=
  match Glob.Pattern.read text with
  | .ok pattern => pattern.matches name
  | .error _ => false

/-- The override that counts for a name: the first one whose pattern describes it. -/
def overrideOf? (overrides : List (String × FunctionConfig)) (name : String) :
    Option FunctionConfig :=
  (overrides.find? fun entry => Glob.describes entry.1 name).map (·.2)

namespace Options

variable {o : Options} {engine : Engine} {s : Settings}

/-- An override that can be read keeps its options, and its pattern matches what its text
describes. -/
theorem eq_of_readOverride {entry : String × FunctionConfig}
    {override : Glob.Pattern × FunctionConfig} (read : readOverride entry = .ok override) :
    override.2 = entry.2 ∧ ∀ name, override.1.matches name = Glob.describes entry.1 name := by
  unfold readOverride at read
  unfold Glob.describes
  cases made : Glob.Pattern.read entry.1 with
  | error flaw => simp [made] at read
  | ok pattern =>
      simp only [made, Except.ok.injEq] at read
      subst read
      exact ⟨rfl, fun name => rfl⟩

/-- Reading the patterns does not change which override comes first. -/
theorem find?_of_readOverrides {entries : List (String × FunctionConfig)}
    {overrides : List (Glob.Pattern × FunctionConfig)}
    (read : entries.mapM readOverride = .ok overrides) (name : String) :
    (overrides.find? fun override => override.1.matches name).map (·.2) =
      overrideOf? entries name := by
  unfold overrideOf?
  induction entries generalizing overrides with
  | nil =>
      cases read
      rfl
  | cons entry rest ih =>
      rw [List.mapM_cons] at read
      obtain ⟨override, first, read⟩ := Disk.ok_of_bind read
      obtain ⟨others, readRest, read⟩ := Disk.ok_of_bind read
      cases read
      obtain ⟨same, fits⟩ := eq_of_readOverride first
      rw [List.find?_cons, List.find?_cons, fits]
      cases Glob.describes entry.1 name with
      | true => simp [same]
      | false => exact ih readRest

/-- What settings keep of the options they are made from. -/
structure Kept (o : Options) (s : Settings) : Prop where
  defaults : s.defaults = o.defaults
  overrides : o.overrides.mapM readOverride = .ok s.overrides
  concurrency : s.concurrency = o.concurrency
  format : s.format = o.format

theorem kept_of_build (built : o.build engine = .ok s) : Kept o s := by
  unfold build at built
  dsimp only at built
  by_cases never : (o.concurrency == some 0) = true
  · rw [if_pos never] at built
    cases built
  · rw [if_neg never] at built
    obtain ⟨overrides, read, built⟩ := Disk.ok_of_bind built
    cases asked : o.extensions with
    | none =>
        rw [asked] at built
        cases built
        exact ⟨rfl, read, rfl, rfl⟩
    | some texts =>
        rw [asked] at built
        obtain ⟨extensions, -, built⟩ := Disk.ok_of_bind built
        cases built
        exact ⟨rfl, read, rfl, rfl⟩

/-- The options of a function are those of all functions, with the override of its name on top. -/
theorem configOf_of_build (built : o.build engine = .ok s) (name : String) :
    s.configOf name = o.defaults.mergedWith ((overrideOf? o.overrides name).getD {}) := by
  have kept := kept_of_build built
  unfold Settings.configOf
  rw [← find?_of_readOverrides kept.overrides name, kept.defaults]
  cases s.overrides.find? fun override => override.1.matches name with
  | none => simp [FunctionConfig.mergedWith, FunctionConfig.accumulate]
  | some override => rfl

end Options

/-! ## Flags -/

namespace CommandLine

variable {host : CommandHost} {file : ConfigFile} {a : Arguments} {engine : Engine} {s : Settings}

/-- The strategy that an override pins for a name. -/
def pinnedFor? (file : ConfigFile) (name : String) : Option StrategyChoice :=
  (overrideOf? file.functions name).bind (·.strategy)

/-- The three places in which a strategy can be pinned, in the order in which they count. -/
theorem strategy_configOf (built : (Options.ofCall host file a).build engine = .ok s)
    (name : String) :
    (s.configOf name).strategy = (pinnedFor? file name).or (a.strategy.or file.strategy) := by
  have merged := congrArg FunctionConfig.strategy (Options.configOf_of_build built name)
  simp only [FunctionConfig.mergedWith, Options.ofCall, Option.orElse_eq_orElse,
    Option.orElse_eq_or] at merged
  rw [merged]
  unfold pinnedFor?
  cases overrideOf? file.functions name with
  | none => rfl
  | some override => rfl

/-- A module is left to the place where a function runs if any of the three places says so. -/
theorem mem_externalModules (built : (Options.ofCall host file a).build engine = .ok s)
    {name item : String} :
    item ∈ (s.configOf name).externalModules ↔
      item ∈ a.external ∨ item ∈ file.externalModules ∨
        ∃ override, overrideOf? file.functions name = some override ∧
          item ∈ override.externalModules := by
  rw [Options.configOf_of_build built name]
  show item ∈ FunctionConfig.accumulate (file.externalModules ++ a.external) _ ↔ _
  rw [FunctionConfig.mem_accumulate_getD (·.externalModules) rfl, List.mem_append, or_assoc,
    or_left_comm]
  exact .rfl

/-- A module is left out altogether if any of the three places says so. -/
theorem mem_ignoredModules (built : (Options.ofCall host file a).build engine = .ok s)
    {name item : String} :
    item ∈ (s.configOf name).ignoredModules ↔
      item ∈ a.ignore ∨ item ∈ file.ignoredModules ∨
        ∃ override, overrideOf? file.functions name = some override ∧
          item ∈ override.ignoredModules := by
  rw [Options.configOf_of_build built name]
  show item ∈ FunctionConfig.accumulate (file.ignoredModules ++ a.ignore) _ ↔ _
  rw [FunctionConfig.mem_accumulate_getD (·.ignoredModules) rfl, List.mem_append, or_assoc,
    or_left_comm]
  exact .rfl

/-- What a flag says holds for every function. The one exception is a strategy where the override
of the name pins another: the override counts more. -/
theorem build_followsFlags (built : (Options.ofCall host file a).build engine = .ok s) :
    (∀ limit, a.concurrency = some limit → s.concurrency = some limit) ∧
      (∀ format, a.archiveFormat = some format → s.format = format) ∧
      ∀ name,
        (∀ item ∈ a.external, item ∈ (s.configOf name).externalModules) ∧
          (∀ item ∈ a.ignore, item ∈ (s.configOf name).ignoredModules) ∧
          ∀ choice, a.strategy = some choice →
            (s.configOf name).strategy = some ((pinnedFor? file name).getD choice) := by
  have kept := Options.kept_of_build built
  refine ⟨?_, ?_, ?_⟩
  · intro limit given
    simp [kept.concurrency, Options.ofCall, given]
  · intro format given
    simp [kept.format, Options.ofCall, given]
  · intro name
    refine ⟨?_, ?_, ?_⟩
    · intro item given
      exact (mem_externalModules built).mpr (.inl given)
    · intro item given
      exact (mem_ignoredModules built).mpr (.inl given)
    · intro choice given
      rw [strategy_configOf built name, given]
      cases pinnedFor? file name with
      | none => rfl
      | some pinned => rfl

/-! ### A file with overrides -/

/-- A place where no command can be run. -/
def withoutCommands : CommandHost := ⟨[], fun _ => pure (.error .notFound)⟩

/-- A file with an override that pins a strategy and one that pins none. -/
def fileOfTwo : ConfigFile where
  strategy := some .engineWithFallback
  externalModules := ["aws-sdk"]
  concurrency := some 4
  functions :=
    [("api-*", { strategy := some .engine }), ("cron", { ignoredModules := ["fsevents"] })]

/-- A call with a flag for each option. -/
def callOfGraph : Arguments where
  strategy := some .graph
  concurrency := some 2
  external := ["pg"]
  ignore := ["sharp"]
  archiveFormat := some .directory

/-- Where the override pins nothing, the flags count. -/
theorem build_followsFlags_cron : ∃ s,
    (Options.ofCall withoutCommands fileOfTwo callOfGraph).build
    (Esbuild.engine {} withoutCommands) =
        .ok s ∧
      s.concurrency = some 2 ∧ s.format = .directory ∧
      "pg" ∈ (s.configOf "cron").externalModules ∧ "sharp" ∈ (s.configOf "cron").ignoredModules ∧
      (s.configOf "cron").strategy = some .graph := by
  have built : (Options.ofCall withoutCommands fileOfTwo callOfGraph).build
      (Esbuild.engine {} withoutCommands) = .ok _ := rfl
  obtain ⟨limit, format, each⟩ := build_followsFlags built
  obtain ⟨external, ignored, strategy⟩ := each "cron"
  exact ⟨_, built, limit 2 rfl, format .directory rfl, external "pg" (by decide),
    ignored "sharp" (by decide), strategy .graph rfl⟩

/-- Where the override pins a strategy, the flag is lost. -/
theorem build_losesFlag : ∃ s,
    (Options.ofCall withoutCommands fileOfTwo callOfGraph).build
    (Esbuild.engine {} withoutCommands) =
        .ok s ∧
      callOfGraph.flaw? = none ∧ callOfGraph.strategy = some .graph ∧
      (s.configOf "api-users").strategy = some .engine := by
  refine ⟨_, rfl, ?_, rfl, ?_⟩ <;> rfl

end CommandLine

end FunctionArchive
